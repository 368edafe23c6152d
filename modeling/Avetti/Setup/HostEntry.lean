import Avetti.Setup.VirtualHosts

/-!
# The host in the copied virtual hosts

The edits of the copy put the host, and `www` before its domain, into the directives for the names.
The edits that follow are made in these names as well: what they find in the host is replaced, too.

## Main definitions

* `pattern w`: a word of the copy as a pattern
* `Lasting host`: the edits that follow leave the host as it is
* `Separate path host`: no two of these edits can undo each other

## Main results

* `Lasting.mem_vhostNames`, `lasting_of_mem_vhostNames`: when the host is the name of a virtual host
-/

open Sed

namespace Avetti

/-! ## The name of the host -/

/-- A character of the name of a host. -/
def IsHostChar (c : Char) : Prop := c.isAlphanum = true ∨ c = '-' ∨ c = '_' ∨ c = '.'

instance (c : Char) : Decidable (IsHostChar c) := inferInstanceAs (Decidable (_ ∨ _))

namespace HostName

variable (n : HostName)

theorem isHostChar : ∀ c ∈ n.text, IsHostChar c := by
  intro c hc
  rcases Text.mem_intercalate hc with rfl | ⟨l, hl, hcl⟩
  · exact Or.inr (Or.inr (Or.inr rfl))
  · rcases (n.isLabel l hl).chars c hcl with h | h | h
    · exact Or.inl h
    · exact Or.inr (Or.inl h)
    · exact Or.inr (Or.inr (Or.inl h))

theorem text_ne_nil : n.text ≠ [] := by
  intro h
  have hlabels := n.splitOn_text
  rw [h] at hlabels
  have hlabel := n.isLabel [] (hlabels ▸ List.mem_singleton_self _)
  exact hlabel.ne_nil rfl

/-- The domain is the whole name, or what follows the first label. -/
theorem serverdomain_cases : serverdomain n.text = n.text ∨
    ∃ l, l ≠ [] ∧ n.text = l ++ '.' :: serverdomain n.text := by
  have hpos : 0 < n.labels.length := List.length_pos_of_ne_nil n.ne_nil
  rcases (show (n.labels.length = 2 ∨ n.labels.length = 3) ∨
      (n.labels.length = 1 ∨ 4 ≤ n.labels.length) by omega) with h | h
  · right
    rw [serverdomain_of_two_or_three n h]
    obtain ⟨labels, hne, hlabel⟩ := n
    rcases labels with _ | ⟨l, _ | ⟨l', ls⟩⟩
    · exact absurd rfl hne
    · simp at h
    · exact ⟨l, (hlabel l List.mem_cons_self).ne_nil, by
        simp [text, dotted, List.intercalate_cons_cons]⟩
  · exact Or.inl (serverdomain_of_one_or_four n h)

theorem mem_of_mem_serverdomain : ∀ c ∈ serverdomain n.text, c ∈ n.text := by
  intro c hc
  rcases n.serverdomain_cases with h | ⟨l, -, h⟩
  · rwa [h] at hc
  · rw [h]
    exact List.mem_append_right l (List.mem_cons_of_mem _ hc)

theorem isHostChar_serverdomain : ∀ c ∈ serverdomain n.text, IsHostChar c :=
  fun c hc => n.isHostChar c (n.mem_of_mem_serverdomain c hc)

end HostName

/-- The characters of a host are none of the special ones. -/
theorem not_mem_of_isHostChar (special : List Char) (hspecial : ∀ c ∈ special, ¬ IsHostChar c)
    {w : Text} (hw : ∀ c ∈ w, IsHostChar c) : ∀ c ∈ w, c ∉ special :=
  fun c hc h => hspecial c h (hw c hc)

theorem verbatim_of_isHostChar {w : Text} (hw : ∀ c ∈ w, IsHostChar c) : Verbatim w :=
  not_mem_of_isHostChar _ (by decide) hw

theorem words_of_isHostChar {w : Text} (hne : w ≠ []) (hw : ∀ c ∈ w, IsHostChar c) :
    Shell.words blanks w = [w] :=
  Shell.words_of_isWord ⟨hne, fun c hc hmem =>
    not_mem_of_isHostChar blanks (by decide) hw c hmem hc⟩

/-! ## The words of the copy -/

/-- A word of the copy as a pattern. -/
def pattern (w : Text) : Regex := Regex.plain (w.map Regex.atomOf)

/-- What a pattern finds has its characters, but for the dots. -/
theorem mem_of_finds {w t : Text} {c : Char} (hc : c ∈ w) (hdot : c ≠ '.')
    (h : (pattern w).finds t = true) : c ∈ t := by
  obtain ⟨m, hm, hmatch⟩ := Regex.finds_plain_iff.mp h
  refine hm.subset ?_
  clear h hm
  induction w generalizing m with
  | nil => cases hc
  | cons d w ih =>
    obtain ⟨e, m, he, hrest, rfl⟩ := List.forall₂_cons_left_iff.mp hmatch
    rcases List.mem_cons.mp hc with rfl | hc
    · rw [Regex.atomOf, if_neg hdot, Atom.accepts_char] at he
      exact he.2 ▸ List.mem_cons_self
    · exact List.mem_cons_of_mem e (ih hc m hrest)

/-- The edits that follow leave the host as it is: nothing of the copy is found in it but its own
domain, or it is `www` before its domain. -/
structure Lasting (host : Text) : Prop where
  rotatelogs : (pattern "rotatelogs.exe").finds host = false
  httpdpath : (pattern "httpdpath").finds host = false
  domain : (∀ m, Piece.found m ∈ pieces (pattern "yourdomain.com") 0 host → m = serverdomain host) ∨
    host = "www.".toList ++ serverdomain host

/-- No two of the edits can undo each other: the path of the web server has a slash, and the host
has no `x`, which `rotatelogs.exe` needs, or the domain leaves it. -/
structure Separate (path host : Text) : Prop where
  slash : '/' ∈ path
  domain : 'x' ∉ host ∨
    ∀ m, Piece.found m ∈ pieces (pattern "yourdomain.com") 0 host → m = serverdomain host

/-! ## The edits of a name -/

/-- A text after the domain is put in. -/
def withDomain (domain t : Text) : Text := sub (pattern "yourdomain.com") (fun _ => domain) t

/-- A text after `rotatelogs.exe` is replaced. -/
def withRotatelogs (t : Text) : Text :=
  sub (pattern "rotatelogs.exe") (fun _ => "rotatelogs".toList) t

/-- A text after the path of the web server is put in. -/
def withPath (path t : Text) : Text := sub (pattern "httpdpath") (expand (pathParts path)) t

theorem subAll_drop_two (v : Vars) (t : Text) :
    subAll ((vhostRules v).drop 2) t = withPath v.httpdPath (withRotatelogs t) := by
  have hrules : (vhostRules v).drop 2 =
      [⟨"rotatelogs.exe".toList.map Regex.atomOf, expand ("rotatelogs".toList.map .lit)⟩,
        ⟨"httpdpath".toList.map Regex.atomOf, expand (pathParts v.httpdPath)⟩] := rfl
  have hconst : expand ("rotatelogs".toList.map .lit) = fun _ => "rotatelogs".toList :=
    funext fun m => expand_map_lit _ m
  rw [hrules, subAll_cons, subAll_cons, Rule.apply, Rule.apply, hconst]
  rfl

theorem subAll_drop_one (v : Vars) (t : Text) : subAll ((vhostRules v).drop 1) t =
    withPath v.httpdPath (withRotatelogs (withDomain (serverdomain v.appHostName) t)) := by
  have hrules : (vhostRules v).drop 1 = ⟨"yourdomain.com".toList.map Regex.atomOf,
      expand ((serverdomain v.appHostName).map .lit)⟩ :: (vhostRules v).drop 2 := rfl
  have hconst : expand ((serverdomain v.appHostName).map .lit) =
      fun _ => serverdomain v.appHostName := funext fun m => expand_map_lit _ m
  rw [hrules, subAll_cons, Rule.apply, hconst, subAll_drop_two]
  rfl

section Edits

variable {path t host : Text}

theorem mem_of_mem_sub_const {r : Regex} {w : Text} {c : Char} (hc : c ∈ sub r (fun _ => w) t) :
    c ∈ t ∨ c ∈ w := by
  obtain ⟨p, hp, hc⟩ := List.mem_flatMap.mp hc
  cases p with
  | kept d => exact Or.inl (mem_of_mem_pieces hp hc)
  | found m => exact Or.inr hc

/-- What replacing `rotatelogs.exe` makes of the length. -/
theorem length_withRotatelogs (t : Text) : ∃ k, (withRotatelogs t).length + k * 14 =
    t.length + k * 10 ∧ (k = 0 → (pattern "rotatelogs.exe").finds t = false) := by
  have hatoms : ("rotatelogs.exe".toList.map Regex.atomOf).length = 14 := by decide
  have hrotatelogs : "rotatelogs".toList.length = 10 := by decide
  have hlength : ∃ k, (withRotatelogs t).length +
      k * ("rotatelogs.exe".toList.map Regex.atomOf).length =
        t.length + k * "rotatelogs".toList.length ∧
      (k = 0 → (pattern "rotatelogs.exe").finds t = false) := length_sub_const (by decide)
  rwa [hatoms, hrotatelogs] at hlength

/-- `rotatelogs.exe` leaves only a text that it is not found in. -/
theorem withRotatelogs_eq_self_iff :
    withRotatelogs t = t ↔ (pattern "rotatelogs.exe").finds t = false := by
  constructor
  · intro h
    obtain ⟨k, hk, hnone⟩ := length_withRotatelogs t
    rw [h] at hk
    exact hnone (by omega)
  · exact fun h => sub_of_not_finds h _

/-- A path with a slash leaves a name only when nothing is replaced by it. -/
theorem eq_of_words_withPath (hslash : '/' ∈ path) (ht : ∀ c ∈ t, IsHostChar c)
    (hhost : '/' ∉ host) (h : Shell.words blanks (withPath path t) = [host]) :
    (pattern "httpdpath").finds t = false ∧ t = host := by
  rcases eq_map_kept_or (pieces (pattern "httpdpath") 0 t) with ⟨u, hu⟩ | ⟨u, m, qs, hu⟩
  · have hsource : u = t := by
      have hpieces := flatMap_source_pieces (pattern "httpdpath") 0 t
      rwa [hu, flatMap_source_map_kept] at hpieces
    have hnone : (pattern "httpdpath").finds t = false :=
      finds_eq_false_of_kept (by decide) (hsource ▸ hu)
    refine ⟨hnone, ?_⟩
    rw [withPath, sub_of_not_finds hnone] at h
    rcases t with _ | ⟨c, t⟩
    · cases h
    · rw [words_of_isHostChar (List.cons_ne_nil c t) ht] at h
      exact List.singleton_inj.mp h
  · -- the slash would be in the name
    exfalso
    have hmem : '/' ∈ withPath path t := by
      have hpath : '/' ∈ expand (pathParts path) m :=
        List.mem_flatMap.mpr ⟨.lit '/', List.mem_map.mpr ⟨'/', hslash, if_neg (by decide)⟩,
          List.mem_singleton_self _⟩
      rw [withPath, sub, hu]
      simp [Piece.image, hpath]
    have hblank : '/' ∉ blanks := by decide
    obtain ⟨w, hw, hslash'⟩ := (Shell.exists_mem_words_iff hblank).mpr hmem
    rw [h, List.mem_singleton] at hw
    exact hhost (hw ▸ hslash')

/-- No text is `www` before what `rotatelogs.exe` makes of it. -/
theorem ne_append_withRotatelogs (t : Text) : t ≠ "www.".toList ++ withRotatelogs t := by
  have hsteady : Regex.steady ("rotatelogs.exe".toList.map Regex.atomOf) "www.".toList = true := by
    decide
  have hstep : ∀ u, withRotatelogs ("www.".toList ++ u) = "www.".toList ++ withRotatelogs u :=
    fun u => sub_append_of_steady hsteady _ u
  induction hn : t.length using Nat.strong_induction_on generalizing t with
  | _ n ih =>
    intro h
    have hinner : withRotatelogs t = "www.".toList ++ withRotatelogs (withRotatelogs t) := by
      conv_lhs => rw [h, hstep]
    have hlength := congrArg List.length h
    have hfour : "www.".toList.length = 4 := rfl
    rw [List.length_append, hfour] at hlength
    exact ih _ (by omega) (withRotatelogs t) rfl hinner

end Edits

/-! ## The host in the edited copy -/

section Host

variable {n : HostName} {v : Vars}

/-- The name that is entered for `www` is the host only when it has no `rotatelogs.exe`. -/
theorem withRotatelogs_www (n : HostName)
    (h : withRotatelogs ("www.".toList ++ serverdomain n.text) = n.text) :
    n.text = "www.".toList ++ serverdomain n.text ∧
      (pattern "rotatelogs.exe").finds n.text = false := by
  have hsteady : Regex.steady ("rotatelogs.exe".toList.map Regex.atomOf) "www.".toList = true := by
    decide
  have hstep : withRotatelogs ("www.".toList ++ serverdomain n.text) =
      "www.".toList ++ withRotatelogs (serverdomain n.text) := sub_append_of_steady hsteady _ _
  rcases n.serverdomain_cases with hwhole | ⟨l, hl, hrest⟩
  · rw [hstep, hwhole] at h
    exact absurd h.symm (ne_append_withRotatelogs n.text)
  · obtain ⟨k, hk, hnone⟩ := length_withRotatelogs ("www.".toList ++ serverdomain n.text)
    have hfour : "www.".toList.length = 4 := rfl
    have hhost := congrArg List.length hrest
    have hpos := List.length_pos_of_ne_nil hl
    rw [List.length_append, List.length_cons] at hhost
    rw [h, List.length_append, hfour] at hk
    have hnone := hnone (by omega)
    have hsame : withRotatelogs ("www.".toList ++ serverdomain n.text) =
        "www.".toList ++ serverdomain n.text := sub_of_not_finds hnone _
    rw [hsame] at h
    rw [h] at hnone
    exact ⟨h.symm, hnone⟩

/-- **A host that the later edits leave is the name of a virtual host.** -/
theorem Lasting.mem_vhostNames (h : Lasting n.text) (hv : v.appHostName = n.text)
    (hpath : ∀ c ∈ v.httpdPath, c ≠ '\\' ∧ c ≠ '\n') (other : Text → Text → Text) :
    n.text ∈ vhostNames (streams other (vhostEdits v) vhostsTemplate) := by
  have hword := words_of_isHostChar n.text_ne_nil n.isHostChar
  have hrotate : withRotatelogs n.text = n.text := withRotatelogs_eq_self_iff.mpr h.rotatelogs
  have hhttpd : withPath v.httpdPath n.text = n.text := sub_of_not_finds h.httpdpath _
  rw [mem_vhostNames_iff (hv ▸ verbatim_of_isHostChar n.isHostChar)
    (hv ▸ verbatim_of_isHostChar n.isHostChar_serverdomain) hpath, subAll_drop_one,
    subAll_drop_two, hv]
  rcases h.domain with hdomain | hwww
  · left
    have hsame : withDomain (serverdomain n.text) n.text = n.text :=
      sub_const_eq_self_iff.mpr hdomain
    rw [hsame, hrotate, hhttpd, hword]
  · right
    rw [← hwww, hrotate, hhttpd, hword]

/-- **The later edits leave a host that is the name of a virtual host**, when they cannot undo each
other. -/
theorem lasting_of_mem_vhostNames (hseparate : Separate v.httpdPath n.text)
    (hv : v.appHostName = n.text) (hpath : ∀ c ∈ v.httpdPath, c ≠ '\\' ∧ c ≠ '\n')
    {other : Text → Text → Text}
    (h : n.text ∈ vhostNames (streams other (vhostEdits v) vhostsTemplate)) : Lasting n.text := by
  have hslash : '/' ∉ n.text := fun hmem =>
    not_mem_of_isHostChar ['/'] (by decide) n.isHostChar '/' hmem List.mem_cons_self
  have hrotate : ∀ t : Text, (∀ c ∈ t, IsHostChar c) → ∀ c ∈ withRotatelogs t, IsHostChar c := by
    intro t ht c hc
    rcases mem_of_mem_sub_const hc with hc | hc
    · exact ht c hc
    · exact (by decide : ∀ c ∈ "rotatelogs".toList, IsHostChar c) c hc
  rw [mem_vhostNames_iff (hv ▸ verbatim_of_isHostChar n.isHostChar)
    (hv ▸ verbatim_of_isHostChar n.isHostChar_serverdomain) hpath, subAll_drop_one,
    subAll_drop_two, hv] at h
  rcases h with h | h
  · have hdomain : ∀ c ∈ withDomain (serverdomain n.text) n.text, c ∈ n.text := fun c hc =>
      (mem_of_mem_sub_const hc).elim id (n.mem_of_mem_serverdomain c)
    obtain ⟨hnone, hsame⟩ := eq_of_words_withPath hseparate.slash
      (hrotate _ fun c hc => n.isHostChar c (hdomain c hc)) hslash h
    rw [hsame] at hnone
    rcases hseparate.domain with hx | hkept
    · -- without an `x` there is no `rotatelogs.exe`
      have hfinds : ∀ t : Text, 'x' ∉ t → (pattern "rotatelogs.exe").finds t = false :=
        fun t ht => Bool.eq_false_iff.mpr fun hfound =>
          ht (mem_of_finds (by decide) (by decide) hfound)
      have hself : withDomain (serverdomain n.text) n.text = n.text := by
        rwa [withRotatelogs_eq_self_iff.mpr (hfinds _ fun hmem => hx (hdomain 'x' hmem))] at hsame
      exact ⟨hfinds _ hx, hnone, Or.inl (sub_const_eq_self_iff.mp hself)⟩
    · have hself : withDomain (serverdomain n.text) n.text = n.text :=
        sub_const_eq_self_iff.mpr hkept
      rw [hself] at hsame
      exact ⟨withRotatelogs_eq_self_iff.mp hsame, hnone, Or.inl hkept⟩
  · have hwww : ∀ c ∈ "www.".toList ++ serverdomain n.text, IsHostChar c := by
      intro c hc
      rcases List.mem_append.mp hc with hc | hc
      · exact (by decide : ∀ c ∈ "www.".toList, IsHostChar c) c hc
      · exact n.isHostChar_serverdomain c hc
    obtain ⟨hnone, hsame⟩ := eq_of_words_withPath hseparate.slash (hrotate _ hwww) hslash h
    rw [hsame] at hnone
    obtain ⟨heq, hrotatelogs⟩ := withRotatelogs_www n hsame
    exact ⟨hrotatelogs, hnone, Or.inr heq⟩

end Host

end Avetti
