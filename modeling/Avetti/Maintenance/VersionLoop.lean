import Avetti.Maintenance.Batch

/-!
# The loop over the components of a version path

`:LOOP` takes the first component off `codeNum` and goes on with the rest, which it keeps in `comp`,
until nothing is left. A text that starts with the comment character runs the body of its `for` not
at all, and `comp` is then what it was before.

## Main definitions

* `components path`: the components of a path that are not empty
* `LoopEnds codeNum comp last`: from these values the loop ends, with `last` in `codeNum`

## Main results

* `loopEnds_iff`: where the loop ends, for a path with at least one component
* `lastComponent_of_loopEnds`: the rounds that `lastComponent` makes are enough
-/

namespace Avetti

/-- The components of a path that are not empty. -/
def components (path : Text) : List Text := Shell.words ['/'] path

/-- `codeNum` and `comp` after the `for` of the loop. -/
def loopBody (codeNum comp : Text) : Text × Text := (firstToken codeNum).getD (codeNum, comp)

/-- The loop ends, with `last` in `codeNum`. The value of `comp` stands in a block when it is
assigned, which a closing bracket in it would end. -/
inductive LoopEnds : Text → Text → Text → Prop where
  | done {codeNum comp last : Text} (body : loopBody codeNum comp = (last, [])) :
      LoopEnds codeNum comp last
  | again {codeNum comp first rest last : Text} (body : loopBody codeNum comp = (first, rest))
      (ne_nil : rest ≠ []) (block : ')' ∉ rest) (next : LoopEnds rest rest last) :
      LoopEnds codeNum comp last

/-- The text starts with the comment character of `for /f`. -/
def IsComment (t : Text) : Prop := t.head? = some ';'

instance (t : Text) : Decidable (IsComment t) := inferInstanceAs (Decidable (_ = _))

theorem exists_mem_components_iff {c : Char} {t : Text} (hc : c ≠ '/') :
    (∃ w ∈ components t, c ∈ w) ↔ c ∈ t :=
  Shell.exists_mem_words_iff (by simpa using hc)

/-! ## One round -/

/-- A comment leaves both variables as they were. -/
theorem loopBody_of_isComment {t : Text} (ht : IsComment t) (comp : Text) :
    loopBody t comp = (t, comp) := by
  have hnone : firstToken t = none := if_pos (Or.inr ht)
  rw [loopBody, hnone, Option.getD_none]

/-- The body takes the first component off, and the rest starts with the next one. -/
theorem exists_rest {t w : Text} {ws : List Text} (ht : components t = w :: ws)
    (hcomment : ¬ IsComment t) (comp : Text) :
    ∃ rest, loopBody t comp = (w, rest) ∧ components rest = ws ∧ (rest = [] ↔ ws = []) ∧
      rest.head? = ws.head?.bind List.head? ∧ rest.length < t.length := by
  have hne : t.dropWhile (· = '/') ≠ [] := fun h => by
    rw [components, Shell.words_eq_nil_iff.mpr h] at ht
    cases ht
  have hbody : loopBody t comp = ((t.dropWhile (· = '/')).takeWhile (· ≠ '/'),
      ((t.dropWhile (· = '/')).dropWhile (· ≠ '/')).dropWhile (· = '/')) := by
    rw [loopBody, firstToken, if_neg (by simp only [not_or]; exact ⟨hne, hcomment⟩)]
    rfl
  rw [components, Shell.words_eq_cons hne, List.cons.injEq] at ht
  obtain ⟨rfl, rfl⟩ := ht
  generalize hrest : ((t.dropWhile (· = '/')).dropWhile (· ≠ '/')).dropWhile (· = '/') = rest
    at hbody
  have hwords : Shell.words ['/'] ((t.dropWhile (· = '/')).dropWhile (· ≠ '/')) =
      components rest := by
    rw [components, ← hrest, Shell.words_dropWhile]
  -- the rest has no slash in front
  have hidem : rest.dropWhile (· = '/') = rest := by
    rw [← hrest, List.dropWhile_idempotent]
  have hnil : rest = [] ↔ components rest = [] := by
    rw [components, Shell.words_eq_nil_iff, hidem]
  refine ⟨rest, hbody, hwords.symm, hwords ▸ hnil, ?_, ?_⟩
  · rw [hwords]
    rcases rest with _ | ⟨c, r⟩
    · rfl
    · have hc : c ≠ '/' := by
        rintro rfl
        have hlen := congrArg List.length hidem
        have hle := (List.dropWhile_suffix (l := r) (· = '/')).length_le
        simp only [decide_true, List.dropWhile_cons_of_pos, List.length_cons] at hlen
        omega
      rw [components, Shell.words_eq_cons (by rw [hidem]; simp), hidem]
      simp [hc]
  · have happ := congrArg List.length
      (List.takeWhile_append_dropWhile (p := (· ≠ '/')) (l := t.dropWhile (· = '/')))
    have hmem : (t.dropWhile (· = '/')).takeWhile (· ≠ '/') ∈ Shell.words ['/'] t := by
      rw [Shell.words_eq_cons hne]
      exact List.mem_cons_self
    have hpos : 0 < ((t.dropWhile (· = '/')).takeWhile (· ≠ '/')).length :=
      List.length_pos_of_ne_nil (Shell.isWord_of_mem_words hmem).ne_nil
    have hle := (List.dropWhile_suffix (l := t) (· = '/')).length_le
    have hle' := (List.dropWhile_suffix (l := (t.dropWhile (· = '/')).dropWhile (· ≠ '/'))
      (· = '/')).length_le
    rw [List.length_append] at happ
    rw [hrest] at hle'
    omega

/-! ## The loop -/

/-- From a comment in both variables the loop does not end. -/
theorem not_loopEnds_of_isComment {t last : Text} (ht : IsComment t) : ¬ LoopEnds t t last := by
  have hstays : ∀ {codeNum comp : Text}, LoopEnds codeNum comp last → IsComment codeNum →
      comp = codeNum → False := by
    intro codeNum comp h
    induction h with
    | done body =>
      intro hcomment hcomp
      rw [loopBody_of_isComment hcomment, hcomp, Prod.mk.injEq] at body
      rw [body.2] at hcomment
      cases hcomment
    | again body _ _ _ ih =>
      -- the round changes nothing, and the next one starts from the same values
      intro hcomment hcomp
      rw [loopBody_of_isComment hcomment, hcomp, Prod.mk.injEq] at body
      exact ih (body.2 ▸ hcomment) rfl
  exact fun h => hstays h ht rfl

theorem loopEnds_iff_of_body {t comp first rest last : Text}
    (body : loopBody t comp = (first, rest)) :
    LoopEnds t comp last ↔
      rest = [] ∧ last = first ∨ rest ≠ [] ∧ ')' ∉ rest ∧ LoopEnds rest rest last := by
  constructor
  · intro h
    cases h with
    | done body' =>
      rw [body, Prod.mk.injEq] at body'
      exact Or.inl ⟨body'.2, body'.1.symm⟩
    | again body' ne_nil block next =>
      rw [body, Prod.mk.injEq] at body'
      obtain ⟨-, rfl⟩ := body'
      exact Or.inr ⟨ne_nil, block, next⟩
  · rintro (⟨rfl, rfl⟩ | ⟨hne, hblock, hnext⟩)
    · exact .done body
    · exact .again body hne hblock hnext

/-- **Where the loop ends**: at the last component, unless one of the components after the first
is a comment or has a closing bracket. -/
theorem loopEnds_iff {t w comp last : Text} {ws : List Text} (ht : components t = w :: ws)
    (hcomment : ¬ IsComment t) :
    LoopEnds t comp last ↔
      (w :: ws).getLast? = some last ∧ ∀ c ∈ ws, ¬ IsComment c ∧ ')' ∉ c := by
  induction ws generalizing t w comp with
  | nil =>
    obtain ⟨rest, body, -, hnil, -⟩ := exists_rest ht hcomment comp
    rw [loopEnds_iff_of_body body]
    simp [hnil, eq_comm]
  | cons w' ws ih =>
    obtain ⟨rest, body, hrest, hnil, hhead, -⟩ := exists_rest ht hcomment comp
    have hne : rest ≠ [] := by simp [hnil]
    have hiff : IsComment rest ↔ IsComment w' := by
      rw [IsComment, IsComment, hhead]
      rfl
    have hblock : ')' ∉ rest ↔ ∀ c ∈ w' :: ws, ')' ∉ c := by
      rw [← hrest, ← exists_mem_components_iff (by decide)]
      push Not
      rfl
    rw [loopEnds_iff_of_body body]
    by_cases hw' : IsComment w'
    · -- the next round starts with a comment, and none after it changes anything
      have hnot : ¬ LoopEnds rest rest last := not_loopEnds_of_isComment (hiff.mpr hw')
      simp [hne, hnot, hw']
    · rw [ih hrest (mt hiff.mp hw'), hblock, List.getLast?_cons_cons]
      simp only [List.forall_mem_cons, hne, false_and, ne_eq, not_false_eq_true, true_and,
        false_or, hw', not_false_eq_true]
      constructor
      · rintro ⟨⟨hb, -⟩, hlast, hws⟩
        exact ⟨hlast, hb, hws⟩
      · rintro ⟨hlast, hb, hws⟩
        exact ⟨⟨hb, fun c hc => (hws c hc).2⟩, hlast, hws⟩

/-- The rounds of `loop` are enough for a path that gets shorter in every round. -/
theorem loop_eq {n : ℕ} {t w comp last : Text} {ws : List Text} (ht : components t = w :: ws)
    (hcomment : ¬ IsComment t) (hends : LoopEnds t comp last) (hn : t.length < n) :
    loop n t comp = (last, []) := by
  induction n generalizing t w ws comp with
  | zero => omega
  | succ n ih =>
    obtain ⟨rest, body, hrest, hnil, hhead, hlen⟩ := exists_rest ht hcomment comp
    have hround : loop (n + 1) t comp = if rest ≠ [] then loop n rest rest else (w, rest) := by
      rw [loop]
      change (if (loopBody t comp).2 ≠ [] then
        loop n (loopBody t comp).2 (loopBody t comp).2 else loopBody t comp) = _
      rw [body]
    rw [hround]
    rcases (loopEnds_iff_of_body body).mp hends with ⟨rfl, rfl⟩ | ⟨hne, -, hnext⟩
    · rfl
    · obtain ⟨w', ws', rfl⟩ := List.exists_cons_of_ne_nil (mt hnil.mpr hne)
      have hrest' : ¬ IsComment rest := fun h => not_loopEnds_of_isComment h hnext
      rw [if_pos hne]
      exact ih hrest hrest' hnext (by omega)

/-- The rounds that `lastComponent` makes are enough. -/
theorem lastComponent_of_loopEnds {t comp last : Text} (ht : components t ≠ [])
    (hcomment : ¬ IsComment t) (hends : LoopEnds t comp last) : lastComponent t comp = last := by
  obtain ⟨w, ws, hws⟩ := List.exists_cons_of_ne_nil ht
  rw [lastComponent, loop_eq hws hcomment hends (Nat.lt_succ_self _)]

end Avetti
