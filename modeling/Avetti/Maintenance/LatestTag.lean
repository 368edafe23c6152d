import Avetti.Maintenance.Shell
import Avetti.Script.Hoare
import Avetti.Text.Decimal

/-!
# The update to the latest tag

`updatetolatestcommunitytag.sh` takes the last line of the listing of the tags for the latest tag,
and deploys it unless its directory exists. The listing is in byte order.

## Main definitions

* `Tag`: the name `Commerce` with dotted numbers
* `Listing`: the tags of the repository, and their companions, in byte order
* `MovesForward R installed`: the greatest version is selected, and only a version that is greater
  than every installed one is deployed
* `KeepsUp R installed`: the condition on the versions

## Main results

* `exists_last_tag`: the tag that is selected is the last one in byte order
* `Tag.ahead_iff`: the tags that are last in byte order and newest
* `movesForward_iff`: when the script moves forward
-/

open Script

namespace Avetti

/-! ## Tags -/

/-- A tag: its dotted numbers. -/
structure Tag where
  numbers : List Text
  ne_nil : numbers ≠ []
  digits : ∀ x ∈ numbers, x ≠ [] ∧ Decimal.IsDigits x

namespace Tag

/-- The name of the directory of a tag. -/
def name (t : Tag) : Text := "Commerce".toList ++ Decimal.dotted t.numbers

/-- The version, compared component by component. -/
def version (t : Tag) : List ℕ := t.numbers.map Decimal.value

theorem version_lt_iff (s t : Tag) : s.version < t.version ↔ Decimal.Newer t.numbers s.numbers :=
  (Decimal.newer_iff (fun x hx => (t.digits x hx).2) fun x hx => (s.digits x hx).2).symm

theorem ahead_iff (s t : Tag) :
    Decimal.Ahead s.numbers t.numbers ↔ t.name < s.name ∧ ¬ s.version < t.version := by
  have hname : t.name < s.name ↔ Decimal.dotted t.numbers < Decimal.dotted s.numbers :=
    Decimal.append_lt_append_iff _
  rw [Decimal.ahead_iff s.digits t.digits, hname, s.version_lt_iff t]

theorem not_mem_name (t : Tag) {c : Char} (hc : c ∈ ['\n', '/']) : c ∉ t.name := by
  intro hmem
  rcases List.mem_append.mp hmem with hmem | hmem
  · exact absurd hmem ((by decide : ∀ c ∈ ['\n', '/'], c ∉ "Commerce".toList) c hc)
  · rcases Decimal.mem_dotted (fun x hx => (t.digits x hx).2) c hmem with rfl | hdigit
    · exact absurd hc (by decide)
    · exact absurd hdigit ((by decide : ∀ c ∈ ['\n', '/'], ¬ c.isDigit = true) c hc)

/-- The name of a tag has no `core` in it. -/
theorem not_occurs_core (t : Tag) : ¬ Text.Occurs "core" (t.name ++ ['/']) := by
  have hname : t.name ++ ['/'] =
      "Commer".toList ++ ('c' :: ("e".toList ++ Decimal.dotted t.numbers ++ ['/'])) := rfl
  have hcore : "core".toList = 'c' :: "ore".toList := rfl
  have hrest : 'c' ∉ "e".toList ++ Decimal.dotted t.numbers ++ ['/'] := by
    intro hmem
    rcases List.mem_append.mp hmem with hmem | hmem
    · rcases List.mem_append.mp hmem with hmem | hmem
      · exact absurd hmem (by decide)
      · have hc := Decimal.mem_dotted (fun x hx => (t.digits x hx).2) 'c' hmem
        exact absurd hc (by decide)
    · exact absurd hmem (by decide)
  rw [hname, hcore, Text.occurs_append_of_not_mem (by decide), Text.occurs_cons_cons]
  rintro (hbegins | hoccurs)
  · obtain ⟨w, hw⟩ := hbegins
    exact absurd (List.cons.inj hw).1 (by decide)
  · exact hrest (hoccurs.subset List.mem_cons_self)

end Tag

/-! ## The listing -/

/-- A directory of the repository: a tag, or a companion with `core` in its name. -/
inductive Entry where
  | tag (t : Tag)
  | companion (name : Text) (core : Text.Occurs "core" name) (line : '\n' ∉ name)

namespace Entry

/-- The name of a directory. -/
def name : Entry → Text
  | tag t => t.name
  | companion n _ _ => n

/-- The directory is a tag. -/
def isTag : Entry → Bool
  | tag _ => true
  | companion .. => false

theorem newline_not_mem (e : Entry) : '\n' ∉ e.name ++ ['/'] := by
  have hname : '\n' ∉ e.name := by
    cases e with
    | tag t => exact t.not_mem_name List.mem_cons_self
    | companion n core line => exact line
  simpa using hname

/-- `grep -v core` leaves the tags. -/
theorem not_occurs_iff (e : Entry) : ¬ Text.Occurs "core" (e.name ++ ['/']) ↔ e.isTag = true := by
  cases e with
  | tag t => exact iff_of_true t.not_occurs_core rfl
  | companion n core line =>
    have hoccurs : Text.Occurs "core" (n ++ ['/']) := core.trans (List.prefix_append _ _).isInfix
    exact iff_of_false (fun h => h hoccurs) Bool.false_ne_true

end Entry

/-- The tags of the repository and their companions, as `svn ls` lists them. -/
structure Listing where
  entries : List Entry
  sorted : entries.Pairwise fun a b => a.name < b.name
  hasTag : ∃ t, .tag t ∈ entries

namespace Listing

variable (R : Listing)

/-- The output of `svn ls`. -/
def text : Text := Text.unlines (R.entries.map fun e => e.name ++ ['/'])

theorem filter_lines : (Text.lines R.text).filter (fun l => ¬ Text.Occurs "core" l) =
    (R.entries.filter Entry.isTag).map fun e => e.name ++ ['/'] := by
  have hlines : Text.lines R.text = R.entries.map fun e => e.name ++ ['/'] := by
    refine Text.lines_unlines fun l hl => ?_
    obtain ⟨e, -, rfl⟩ := List.mem_map.mp hl
    exact e.newline_not_mem
  rw [hlines, List.filter_map]
  congr 1
  refine List.filter_congr fun e _ => ?_
  rw [Function.comp_apply, Bool.eq_iff_iff, decide_eq_true_eq]
  exact e.not_occurs_iff

/-- **The selected tag** is the last one in byte order. -/
theorem exists_last_tag : ∃ L, .tag L ∈ R.entries ∧ latestTag R.text = L.name ∧
    ∀ t, .tag t ∈ R.entries → t = L ∨ t.name < L.name := by
  have hne : R.entries.filter Entry.isTag ≠ [] := by
    obtain ⟨t, ht⟩ := R.hasTag
    exact List.ne_nil_of_mem (List.mem_filter.mpr ⟨ht, rfl⟩)
  obtain ⟨before, e, hlast⟩ := List.eq_nil_or_concat _ |>.resolve_left hne
  have hmem : ∀ e', e' ∈ R.entries ∧ e'.isTag = true ↔ e' ∈ before ++ [e] := fun e' => by
    rw [← List.concat_eq_append, ← hlast, List.mem_filter]
  obtain ⟨he, htag⟩ := (hmem e).mpr (by simp)
  cases e with
  | companion n core line => cases htag
  | tag L =>
    refine ⟨L, he, ?_, fun t ht => ?_⟩
    · -- the last line without `core` is its line
      have hline : Text.lastLine (Text.grep (fun l => ¬ Text.Occurs "core" l) R.text) =
          L.name ++ ['/'] := by
        rw [Text.lastLine, Text.lines_grep, R.filter_lines, hlast]
        simp [Entry.name]
      have hslash : ∀ c ∈ L.name, decide (c ≠ '/') = true := fun c hc =>
        decide_eq_true fun h => L.not_mem_name (by simp) (h ▸ hc)
      rw [latestTag, hline, List.takeWhile_append_of_pos hslash, List.dropWhile_append_of_pos hslash]
      simp
    · have hsorted := R.sorted.filter Entry.isTag
      rw [hlast, List.concat_eq_append, List.pairwise_append] at hsorted
      rcases List.mem_append.mp ((hmem (.tag t)).mp ⟨ht, rfl⟩) with hbefore | hself
      · exact Or.inr (hsorted.2.2 _ hbefore _ (List.mem_singleton.mpr rfl))
      · have heq : Entry.tag t = Entry.tag L := List.mem_singleton.mp hself
        exact Or.inl (Entry.tag.inj heq)

/-- The last tag in byte order is the one that is ahead of every other. -/
theorem eq_of_ahead {L g : Tag} (hL : .tag L ∈ R.entries) (hg : .tag g ∈ R.entries)
    (hbefore : ∀ t, .tag t ∈ R.entries → t = L ∨ t.name < L.name)
    (hahead : ∀ t, .tag t ∈ R.entries → t = g ∨ Decimal.Ahead g.numbers t.numbers) : g = L := by
  rcases hbefore g hg with h | h
  · exact h
  · rcases hahead L hL with heq | hahead
    · exact heq.symm
    · have hafter := ((g.ahead_iff L).mp hahead).1
      exact absurd (List.lt_trans h hafter) (List.lt_irrefl _)

end Listing

/-! ## Runs -/

/-- The names of the installed versions. -/
def names (installed : List Tag) : List Text := installed.map Tag.name

/-- The replies of the repository with these tags, on a system with these versions. -/
def Replies (R : Listing) (installed : List Tag) : Cmd → Reply → Prop
  | .run ws, r => ws = svnLs → r.out = R.text
  | .test op word, r => op = "-d".toList → ∀ t : Tag, word = codeDir t.name →
      (r.status = 0 ↔ t.name ∈ names installed)
  | _, _ => True

/-- The command checks the tag out, or is a goal of Maven or a service. -/
def Cmd.Deploys (tag : Text) (c : Cmd) : Prop := c = .run (svnCo tag) ∨ c.isQuiet = false

/-- **The script moves forward**: it selects a tag with the greatest version, and checks it out or
deploys it only when that version is greater than every installed one. -/
structure MovesForward (R : Listing) (installed : List Tag) : Prop where
  selects : ∃ L, .tag L ∈ R.entries ∧ latestTag R.text = L.name ∧
    ∀ t, .tag t ∈ R.entries → t.version ≤ L.version
  deploys : ∀ L, .tag L ∈ R.entries → latestTag R.text = L.name → ∀ t o,
    Runs updatetolatestcommunitytag t o → (∀ e ∈ t, Replies R installed e.1 e.2) →
      (∃ e ∈ t, e.1.Deploys L.name) → ∀ i ∈ installed, i.version < L.version

/-- The versions allow it: one tag of the repository is ahead of every other one, and it is installed
or every installed version is older than some tag of the repository. -/
def KeepsUp (R : Listing) (installed : List Tag) : Prop :=
  ∃ g, .tag g ∈ R.entries ∧
    (∀ t, .tag t ∈ R.entries → t = g ∨ Decimal.Ahead g.numbers t.numbers) ∧
    (g.name ∈ names installed ∨
      ∀ i ∈ installed, ∃ t, .tag t ∈ R.entries ∧ Decimal.Newer t.numbers i.numbers)

section Runs

variable {R : Listing} {installed : List Tag} {L : Tag}

/-- A tag that is installed is not deployed. -/
theorem not_deploys (hlast : latestTag R.text = L.name) (hL : L.name ∈ names installed) :
    Triple (Replies R installed) (fun c => ¬ c.Deploys L.name) (fun _ => False) enterTag := by
  have hnot : ∀ {c : Cmd}, c ≠ .run (svnCo L.name) → c.isQuiet = true → ¬ c.Deploys L.name := by
    rintro c hne hquiet (h | h)
    · exact hne h
    · exact absurd (h.symm.trans hquiet) (by decide)
  have hrun : ∀ {w : Text} {ws : List Text}, ws[0]? ≠ some "co".toList →
      ¬ (Cmd.run (w :: ws)).Deploys L.name := by
    intro w ws hws
    refine hnot (fun h => hws ?_) rfl
    rw [Cmd.run.injEq] at h
    rw [svnCo, List.cons.injEq] at h
    rw [h.2]
    rfl
  simp only [enterTag, run_bind, capture_bind, command_bind, fileTest_bind]
  refine triple_call (hrun (by decide)) fun user _ => triple_ite (fun _ => triple_leave 1) fun _ => ?_
  refine triple_call (hrun (by decide)) fun _ _ => triple_call (hrun (by decide)) fun r hr => ?_
  have hout : latestTag r.out = L.name := by rw [hr rfl, hlast]
  rw [hout]
  refine triple_call (hnot (by rintro ⟨⟩) rfl) fun found hfound => ?_
  refine triple_ite (fun _ => triple_leave 1) fun hdir => ?_
  exact absurd (decide_eq_true ((hfound rfl L rfl).mpr hL)) hdir

/-- The replies of such a repository and system, to `root`. -/
def tagReplies (R : Listing) (installed : List Tag) : Cmd → Reply
  | .run ws => ⟨0, if ws = svnLs then R.text else "root"⟩
  | .test _ word => ⟨if word ∈ (names installed).map codeDir then 0 else 1, []⟩
  | _ => ⟨0, []⟩

theorem replies_tagReplies (c : Cmd) : Replies R installed c (tagReplies R installed c) := by
  cases c with
  | run ws => exact fun h => if_pos h
  | test op word =>
    rintro - t rfl
    have hmem : codeDir t.name ∈ (names installed).map codeDir ↔ t.name ∈ names installed :=
      List.mem_map_of_injective fun a b h => List.append_cancel_left h
    rw [tagReplies]
    split_ifs with h
    · exact iff_of_true rfl (hmem.mp h)
    · exact iff_of_false (by decide) fun h' => h (hmem.mpr h')
  | _ => trivial

/-- A tag that is not installed is checked out. -/
theorem meets_svnCo (hlast : latestTag R.text = L.name) (hL : L.name ∉ names installed) :
    Meets (tagReplies R installed) (· = .run (svnCo L.name)) updatetolatestcommunitytag := by
  have hroot : ¬ (isOtherWord (Text.chomp "root") "avetti" = true ∧
      isOtherWord (Text.chomp "root") "root" = true) := by decide
  have hdir : (tagReplies R installed (.test "-d" (codeDir L.name))).status ≠ 0 := by
    intro h
    exact hL ((replies_tagReplies (.test "-d" (codeDir L.name)) rfl L rfl).mp h)
  have henter : Meets (tagReplies R installed) (· = .run (svnCo L.name)) enterTag := by
    simp only [enterTag, run_bind, capture_bind, command_bind, fileTest_bind]
    refine meets_call ?_
    rw [show (tagReplies R installed (.run ["whoami"])).out = "root".toList from rfl, if_neg hroot]
    refine meets_call (meets_call ?_)
    have hout : latestTag (tagReplies R installed (.run svnLs)).out = L.name := by
      rw [tagReplies, if_pos rfl]
      exact hlast
    rw [hout]
    refine meets_call ?_
    rw [if_neg fun h => hdir (of_decide_eq_true h)]
    refine meets_call (meets_call_here ?_ _)
    rfl
  exact henter.bind _

end Runs

/-- **The latest tag**: the script moves forward exactly when the versions allow it. -/
theorem movesForward_iff (R : Listing) (installed : List Tag) :
    MovesForward R installed ↔ KeepsUp R installed := by
  obtain ⟨L, hmem, hlast, hbefore⟩ := R.exists_last_tag
  have hunique : ∀ t, .tag t ∈ R.entries → latestTag R.text = t.name → t = L := by
    intro t ht hselected
    rcases hbefore t ht with h | h
    · exact h
    · rw [← hlast, hselected] at h
      exact absurd h (List.lt_irrefl _)
  constructor
  · intro h
    obtain ⟨S, hS, hselected, hgreatest⟩ := h.selects
    obtain rfl := hunique S hS hselected
    refine ⟨S, hS, fun t ht => (hbefore t ht).imp_right fun hlt =>
      (S.ahead_iff t).mpr ⟨hlt, not_lt.mpr (hgreatest t ht)⟩, ?_⟩
    by_cases hinstalled : S.name ∈ names installed
    · exact Or.inl hinstalled
    · obtain ⟨t, o, hrun, hreply, e, he, hco⟩ := meets_svnCo hlast hinstalled
      have hreplies : ∀ e ∈ t, Replies R installed e.1 e.2 := fun e he =>
        hreply e he ▸ replies_tagReplies e.1
      refine Or.inr fun i hi => ⟨S, hS, (i.version_lt_iff S).mp ?_⟩
      exact h.deploys S hS hselected t o hrun hreplies ⟨e, he, Or.inl hco⟩ i hi
  · rintro ⟨g, hg, hahead, hinstalled⟩
    obtain rfl := R.eq_of_ahead hmem hg hbefore hahead
    have hgreatest : ∀ t, .tag t ∈ R.entries → t.version ≤ g.version := fun t ht => by
      rcases hahead t ht with rfl | h
      · exact le_rfl
      · exact not_lt.mp ((g.ahead_iff t).mp h).2
    refine ⟨⟨g, hg, hlast, hgreatest⟩, ?_⟩
    rintro S hS hselected t o hrun hreplies ⟨e, he, hdeploys⟩ i hi
    obtain rfl := hunique S hS hselected
    rcases hinstalled with hinstalled | hinstalled
    · -- the script ends before it deploys anything
      have hscript : Triple (Replies R installed) (fun c => ¬ c.Deploys S.name) (fun _ => False)
          updatetolatestcommunitytag :=
        triple_bind (not_deploys hlast hinstalled) fun _ hno => hno.elim
      exact absurd hdeploys ((hscript t o hrun hreplies).1 e he)
    · obtain ⟨t, ht, hnewer⟩ := hinstalled i hi
      exact ((i.version_lt_iff t).mpr hnewer).trans_le (hgreatest t ht)

/-- The tag `Commerce8.10`. -/
def commerce8_10 : Tag := ⟨["8".toList, "10".toList], by decide, by decide⟩

/-- The tag `Commerce8.9`. -/
def commerce8_9 : Tag := ⟨["8".toList, "9".toList], by decide, by decide⟩

/-- A repository with the two tags. -/
def tenAndNine : Listing where
  entries := [.tag commerce8_10, .tag commerce8_9]
  sorted := by decide
  hasTag := ⟨commerce8_10, List.mem_cons_self⟩

/-- The tag `Commerce8.9` is selected, and `Commerce8.10` is never deployed. -/
theorem not_movesForward_tenAndNine : ¬ MovesForward tenAndNine [] := by
  intro h
  obtain ⟨L, hL, hselected, hgreatest⟩ := h.selects
  have hlast : latestTag tenAndNine.text = commerce8_9.name := by decide
  have hle : commerce8_10.version ≤ L.version := hgreatest _ List.mem_cons_self
  rcases List.mem_pair.mp hL with hL | hL
  · obtain rfl := Entry.tag.inj hL
    exact absurd (hselected.symm.trans hlast) (by decide)
  · obtain rfl := Entry.tag.inj hL
    exact absurd hle (by decide)

end Avetti
