import Avetti.Setup.System

/-!
# The domain of the server

The virtual host for `www` is named after the domain of the server. `setup.sh` and
`setup-step3.bat` derive it from the host name in two ways.

## Main definitions

* `HostName`: host names and addresses, as their labels
* `serverdomainBat`: the domain as `setup-step3.bat` derives it
* `DerivesDomain n`: both derive the same domain from `n`, and it is one

## Main results

* `derivesDomain_iff`: that is the case exactly for the names with three labels
-/

namespace Avetti

/-- A label of a host name. -/
structure IsLabel (l : Text) : Prop where
  ne_nil : l ≠ []
  head : l.head? ≠ some '-'
  chars : ∀ c ∈ l, c.isAlphanum ∨ c = '-' ∨ c = '_'

/-- A host name or an address: its labels. -/
structure HostName where
  labels : List Text
  ne_nil : labels ≠ []
  isLabel : ∀ l ∈ labels, IsLabel l

/-- The labels with dots between them. -/
def dotted (labels : List Text) : Text := ['.'].intercalate labels

/-- The name as it is written. -/
def HostName.text (n : HostName) : Text := dotted n.labels

/-- `FOR /F "tokens=1,2,3 delims=."` with `SET serverdomain=%%b.%%c`: the second and the third
token. A name without a token, or with the comment character first, leaves the variable as it
was. -/
def serverdomainBat (old servername : Text) : Text :=
  let tokens := Shell.words ['.'] servername
  if tokens = [] ∨ servername.head? = some ';' then old
  else (tokens[1]?).getD [] ++ '.' :: (tokens[2]?).getD []

/-- Both scripts derive the same domain: the whole name, or at least two of its last labels. -/
structure DerivesDomain (n : HostName) : Prop where
  same : ∀ old, serverdomainBat old n.text = serverdomain n.text
  whole_or_suffix : serverdomain n.text = n.text ∨
    ∃ ls, ls <:+ n.labels ∧ 2 ≤ ls.length ∧ serverdomain n.text = dotted ls

/-! ## Labels -/

theorem IsLabel.not_mem {l : Text} (hl : IsLabel l) {c : Char} (hc : c.isAlphanum = false)
    (hdash : c ≠ '-') (hline : c ≠ '_') : c ∉ l := by
  intro hmem
  rcases hl.chars c hmem with h | h | h
  · rw [hc] at h
    cases h
  · exact hdash h
  · exact hline h

theorem IsLabel.isWord {l : Text} (hl : IsLabel l) : Shell.IsWord ['.'] l := by
  refine ⟨hl.ne_nil, fun c hc => ?_⟩
  rw [List.mem_singleton.mp hc]
  exact hl.not_mem rfl (by decide) (by decide)

namespace HostName

variable (n : HostName)

theorem splitOn_text : n.text.splitOn '.' = n.labels :=
  List.splitOn_intercalate '.' (fun l hl => (n.isLabel l hl).isWord.not_mem '.' List.mem_cons_self)
    n.ne_nil

theorem words_text : Shell.words ['.'] n.text = n.labels :=
  Shell.words_intercalate fun l hl => (n.isLabel l hl).isWord

theorem head_text : n.text.head? ≠ some ';' := by
  obtain ⟨labels, hne, hlabel⟩ := n
  obtain ⟨l, ls, rfl⟩ := List.exists_cons_of_ne_nil hne
  have hl : IsLabel l := hlabel l List.mem_cons_self
  obtain ⟨c, cs, rfl⟩ := List.exists_cons_of_ne_nil hl.ne_nil
  have hhead : (HostName.text ⟨(c :: cs) :: ls, hne, hlabel⟩).head? = some c := by
    rcases ls with _ | ⟨l', ls⟩
    · simp [text, dotted]
    · simp [text, dotted, List.intercalate_cons_cons]
  rw [hhead]
  rintro ⟨rfl⟩
  exact hl.not_mem rfl (by decide) (by decide) List.mem_cons_self

theorem dot_mem_text_iff : '.' ∈ n.text ↔ 2 ≤ n.labels.length := by
  constructor
  · intro h
    by_contra hlt
    have hone : n.labels.length = 1 := by
      have := List.length_pos_of_ne_nil n.ne_nil
      omega
    obtain ⟨l, hl⟩ := List.length_eq_one_iff.mp hone
    rw [text, dotted, hl, List.intercalate_singleton] at h
    exact (n.isLabel l (by simp [hl])).isWord.not_mem '.' List.mem_cons_self h
  · intro h
    obtain ⟨labels, hne, hlabel⟩ := n
    rcases labels with _ | ⟨l, _ | ⟨l', ls⟩⟩
    · exact absurd rfl hne
    · simp at h
    · simp [text, dotted, List.intercalate_cons_cons]

end HostName

/-! ## The domain for each number of labels -/

section Domain

variable (n : HostName)

theorem serverdomainBat_text (old : Text) :
    serverdomainBat old n.text = (n.labels[1]?).getD [] ++ '.' :: (n.labels[2]?).getD [] := by
  rw [serverdomainBat, n.words_text, if_neg]
  simp [n.ne_nil, n.head_text]

/-- A name of two or three labels has no fourth one, and the domain is what follows the first
label. -/
theorem serverdomain_of_two_or_three (h : n.labels.length = 2 ∨ n.labels.length = 3) :
    serverdomain n.text = dotted n.labels.tail := by
  have hdot : '.' ∈ n.text := n.dot_mem_text_iff.mpr (by omega)
  have hlocal : n.text ≠ "localhost".toList := by
    intro heq
    rw [heq] at hdot
    revert hdot
    decide
  have hfour : Text.cut '.' 4 n.text = [] := by
    rw [Text.cut, if_pos hdot, n.splitOn_text, List.getElem?_eq_none (by omega)]
    rfl
  rw [serverdomain, if_pos ⟨hlocal, hfour⟩, Text.cutRange, if_pos hdot, n.splitOn_text,
    List.take_of_length_le (by omega), ← List.drop_one]
  rfl

/-- With one label, or with a fourth one, the domain is the whole name. -/
theorem serverdomain_of_one_or_four (h : n.labels.length = 1 ∨ 4 ≤ n.labels.length) :
    serverdomain n.text = n.text := by
  have hfour : Text.cut '.' 4 n.text ≠ [] := by
    rw [Text.cut, n.splitOn_text]
    rcases h with h | h
    · rw [if_neg fun hdot => by have := n.dot_mem_text_iff.mp hdot; omega]
      obtain ⟨l, hl⟩ := List.length_eq_one_iff.mp h
      rw [HostName.text, dotted, hl, List.intercalate_singleton]
      exact (n.isLabel l (by simp [hl])).ne_nil
    · rw [if_pos (n.dot_mem_text_iff.mpr (by omega)),
        List.getElem?_eq_getElem (show 4 - 1 < n.labels.length by omega)]
      exact (n.isLabel _ (List.getElem_mem _)).ne_nil
  rw [serverdomain, if_neg fun h => hfour h.2]

end Domain

/-- **The domain of the server**: both scripts derive the same domain, and one that belongs to the
name, exactly from a name with three labels. -/
theorem derivesDomain_iff (n : HostName) : DerivesDomain n ↔ n.labels.length = 3 := by
  constructor
  · rintro ⟨same, hdomain⟩
    have hbat := same []
    rw [serverdomainBat_text] at hbat
    have hpos : 0 < n.labels.length := List.length_pos_of_ne_nil n.ne_nil
    by_contra hthree
    rcases (show n.labels.length = 1 ∨ n.labels.length = 2 ∨ 4 ≤ n.labels.length by omega)
      with hone | htwo | hfour
    · -- the batch file has an empty second and third token
      rw [serverdomain_of_one_or_four n (Or.inl hone), List.getElem?_eq_none (by omega),
        List.getElem?_eq_none (by omega)] at hbat
      have hdot : '.' ∈ n.text := by simp [← hbat]
      have := n.dot_mem_text_iff.mp hdot
      omega
    · -- the batch file writes the dot after the last label
      obtain ⟨a, b, hl⟩ := List.length_eq_two.mp htwo
      rw [serverdomain_of_two_or_three n (Or.inl htwo), hl] at hbat
      have hlen := congrArg List.length hbat
      simp [dotted] at hlen
    · -- the batch file takes a part of the middle
      rw [serverdomain_of_one_or_four n (Or.inr hfour)] at hbat
      obtain ⟨a, b, c, d, ls, hl⟩ : ∃ a b c d ls, n.labels = a :: b :: c :: d :: ls := by
        match hls : n.labels, hfour with
        | a :: b :: c :: d :: ls, _ => exact ⟨a, b, c, d, ls, rfl⟩
      have hlen := congrArg List.length hbat
      simp [HostName.text, dotted, hl, List.intercalate_cons_cons] at hlen
      omega
  · intro hthree
    have hsh := serverdomain_of_two_or_three n (Or.inr hthree)
    obtain ⟨a, b, c, hl⟩ := List.length_eq_three.mp hthree
    refine ⟨fun old => ?_, Or.inr ⟨n.labels.tail, List.tail_suffix _, ?_, hsh⟩⟩
    · rw [serverdomainBat_text, hsh, hl]
      simp [dotted, List.intercalate_cons_cons]
    · simp [hthree]

/-- The host `yourdomain.com`. -/
def yourdomain : HostName where
  labels := ["yourdomain", "com"]
  ne_nil := by simp
  isLabel := by
    have h : ∀ l ∈ (["yourdomain", "com"] : List Text),
        l ≠ [] ∧ l.head? ≠ some '-' ∧ ∀ c ∈ l, c.isAlphanum ∨ c = '-' ∨ c = '_' := by
      decide
    exact fun l hl => ⟨(h l hl).1, (h l hl).2.1, (h l hl).2.2⟩

/-- From `yourdomain.com`, `setup.sh` derives `com` and `setup-step3.bat` derives `com.`. -/
theorem not_derivesDomain_yourdomain : ¬ DerivesDomain yourdomain := by
  intro h
  have hsame := h.same []
  revert hsame
  decide

end Avetti
