import Avetti.Setup.Arguments

/-!
# The values of the arguments

At most three arguments are values: the root password, the password of the user `avetti` and the
host name. Any flags may stand between them. The script reads the values off the lines that
`echo -e` prints, as words that stand for pathnames, and takes a flag for given when one line is the
flag.

## Main definitions

* `ArgumentList`: at most six arguments, of which at most three are values
* `ArgumentList.intended`: what the arguments say
* `BindsLiterally a`: the parameter phase sets what the arguments say, whatever files there are
* `Literal a`: no flag is repeated, and no value has an escape sequence or a wildcard

## Main results

* `asIs_of_intendedValues`: values with an escape sequence are not bound as they are
* `bindsLiterally_iff`: when the arguments are bound as they are
-/

open Script

namespace Avetti

/-- An argument list of at most six arguments: flags, and at most three values, which do not start
with a dash and have no newline. -/
structure ArgumentList where
  args : List Text
  length_le : args.length ≤ 6
  positional_le : (args.filter (¬ isOneOf flags ·)).length ≤ 3
  positional : ∀ w ∈ args, isOneOf flags w = false → w ≠ [] ∧ w.head? ≠ some '-' ∧ '\n' ∉ w

/-- The passwords and the host name for the values. -/
def intendedValues : List Text → Text × Text × Text
  | [] => ([], "avetti".toList, "localhost".toList)
  | [r] => (r, r, "localhost".toList)
  | [r, h] => (r, r, h)
  | r :: a :: h :: _ => (r, a, h)

namespace ArgumentList

variable (a : ArgumentList)

/-- The values among the arguments. -/
def values : List Text := a.args.filter (¬ isOneOf flags ·)

/-- The flag occurs among the arguments, in any case. -/
def hasFlag (flag : Text) : Bool := a.args.any (isOneOf [flag])

/-- What the arguments say. -/
def intended : Params where
  nojava := a.hasFlag "--nojava"
  nomysql := a.hasFlag "--nomysql"
  nohttpd := a.hasFlag "--nohttpd"
  mysqlRootPwd := (intendedValues a.values).1
  mysqlAvettiPwd := (intendedValues a.values).2.1
  appHostName := (intendedValues a.values).2.2

end ArgumentList

/-- A run of the parameter phase that is confirmed with `y` ends with what the arguments say. -/
def Binds (glob : Text → List Text) (a : ArgumentList) : Prop :=
  ∀ t o, Runs (parameters glob a.args) t o →
    (∀ r, (Cmd.read "answer2", r) ∈ t → r.out = "y".toList) → o = .returned a.intended

/-- The arguments are bound as they are, whatever files there are. -/
def BindsLiterally (a : ArgumentList) : Prop :=
  ∀ glob, Shell.MatchesItself glob → Binds glob a

/-- No flag is repeated, and no value has an escape sequence of `echo -e` or a wildcard. Only the
sixth argument can end with a backslash of its own. -/
structure Literal (a : ArgumentList) : Prop where
  once : ∀ flag ∈ flags, (a.args.filter (isOneOf [flag])).length ≤ 1
  unescaped : ∀ w ∈ a.args.take 5, Shell.Unescaped w
  unescaped_last : ∀ w ∈ a.args.drop 5, Shell.unescape w = (w, true)
  no_wildcard : ∀ w ∈ a.values, Shell.hasWildcard w = false

/-! ## Binding the values -/

theorem bindValues_eq {vs : List Text} (hvs : ∀ v ∈ vs, v ≠ []) :
    bindValues vs = intendedValues vs := by
  rcases vs with _ | ⟨r, _ | ⟨a, _ | ⟨h, vs⟩⟩⟩
  · rfl
  · simp [bindValues, intendedValues, hvs r]
  · simp [bindValues, intendedValues, hvs a]
  · simp [bindValues, intendedValues, hvs h]

theorem intendedValues_cons_fst (x : Text) (xs : List Text) : (intendedValues (x :: xs)).1 = x := by
  rcases xs with _ | ⟨y, _ | ⟨z, xs⟩⟩ <;> rfl

/-- Lines that do not go on with the values from `w` on are not bound as the values, unless a value
is taken for another one that it is equal to. -/
theorem intendedValues_ne {w : Text} {U V W : List Text} (hw : w ≠ []) (hU : ∀ u ∈ U, w ≠ u)
    (hlocalhost : w ≠ "localhost".toList) (hlength : U.length + W.length ≤ 2)
    (hnot : ∀ R, ¬ R ++ w :: W <+: V) (honce : W = ["localhost".toList] → V ≠ [w])
    (htwice : ∀ x V', W = [w, x] → V = w :: V' → x ≠ "localhost".toList ∧ V' ≠ [x]) :
    intendedValues (U ++ V) ≠ intendedValues (U ++ w :: W) := by
  intro h
  rcases U with _ | ⟨r, _ | ⟨a, _ | ⟨b, U⟩⟩⟩
  · -- the first value is `w`
    have hfst := congrArg Prod.fst h
    rw [List.nil_append, List.nil_append, intendedValues_cons_fst] at hfst
    rcases V with _ | ⟨x, V⟩
    · exact hw hfst.symm
    · rw [intendedValues_cons_fst] at hfst
      subst hfst
      rcases W with _ | ⟨a, _ | ⟨b, _ | ⟨c, W⟩⟩⟩
      · exact hnot [] (by simp)
      · rcases V with _ | ⟨y, _ | ⟨z, V⟩⟩
        · simp only [List.nil_append, intendedValues, Prod.mk.injEq, true_and] at h
          exact honce (by rw [h]) rfl
        · simp only [List.nil_append, intendedValues, Prod.mk.injEq, true_and] at h
          exact hnot [] (by simp [h])
        · simp only [List.nil_append, intendedValues, Prod.mk.injEq, true_and] at h
          exact hnot [x] (by simp [h])
      · rcases V with _ | ⟨y, _ | ⟨z, V⟩⟩
        · simp only [List.nil_append, intendedValues, Prod.mk.injEq, true_and] at h
          exact (htwice b [] (by rw [← h.1]) rfl).1 h.2.symm
        · simp only [List.nil_append, intendedValues, Prod.mk.injEq, true_and] at h
          exact (htwice b [y] (by rw [← h.1]) rfl).2 (by rw [h.2])
        · simp only [List.nil_append, intendedValues, Prod.mk.injEq, true_and] at h
          exact hnot [] (by simp [h])
      · simp only [List.length_cons] at hlength
        omega
  · -- the second value is `w`
    have hr : w ≠ r := hU r List.mem_cons_self
    rcases W with _ | ⟨b, W⟩
    · rcases V with _ | ⟨y, _ | ⟨z, V⟩⟩
      · simp only [List.append_nil, List.cons_append, List.nil_append, intendedValues,
          Prod.mk.injEq, true_and] at h
        exact hlocalhost h.symm
      · simp only [List.cons_append, List.nil_append, intendedValues, Prod.mk.injEq, true_and] at h
        exact hnot [] (by simp [h])
      · simp only [List.cons_append, List.nil_append, intendedValues, Prod.mk.injEq, true_and] at h
        exact hnot [r] (by simp [h])
    · rcases V with _ | ⟨y, _ | ⟨z, V⟩⟩
      · simp only [List.append_nil, List.cons_append, List.nil_append, intendedValues,
          Prod.mk.injEq, true_and] at h
        exact hr h.1.symm
      · simp only [List.cons_append, List.nil_append, intendedValues, Prod.mk.injEq, true_and] at h
        exact hr h.1.symm
      · have hW : W = [] := by
          simp only [List.length_cons] at hlength
          exact List.length_eq_zero_iff.mp (by omega)
        simp only [List.cons_append, List.nil_append, intendedValues, Prod.mk.injEq, true_and] at h
        exact hnot [] (by simp [h, hW])
  · -- the third value is `w`
    have ha : w ≠ a := hU a (by simp)
    have hW : W = [] := by
      simp only [List.length_cons] at hlength
      exact List.length_eq_zero_iff.mp (by omega)
    rcases V with _ | ⟨y, V⟩
    · simp only [List.append_nil, List.cons_append, List.nil_append, intendedValues,
        Prod.mk.injEq, true_and] at h
      exact ha h.2.symm
    · simp only [List.cons_append, List.nil_append, intendedValues, Prod.mk.injEq, true_and] at h
      exact hnot [] (by simp [h, hW])
  · simp only [List.length_cons] at hlength
    omega

/-- Two settings of the parameters agree when the flags and the values do. -/
theorem params_eq_iff (g k : Text → Bool) (p q : Text × Text × Text) (f₁ f₂ f₃ : Text) :
    (⟨g f₁, g f₂, g f₃, p.1, p.2.1, p.2.2⟩ : Params) = ⟨k f₁, k f₂, k f₃, q.1, q.2.1, q.2.2⟩ ↔
      (∀ f ∈ [f₂, f₁, f₃], g f = k f) ∧ p = q := by
  obtain ⟨r, a, h⟩ := p
  obtain ⟨r', a', h'⟩ := q
  simp only [Params.mk.injEq, List.forall_mem_cons, List.not_mem_nil, false_implies, implies_true,
    and_true, Prod.mk.injEq]
  tauto

section Values

variable {ws : List Text}

/-- Words of which `localhost` is the only value leave no line with a backslash. -/
theorem not_mem_of_localhost (hws : ∀ w ∈ ws, '\n' ∉ w)
    (hvalues : ws.filter isValue = ["localhost".toList]) {w l : Text} (hw : '\\' ∈ w)
    (hl : Shell.Begun w l) : w ∉ Shell.valueLines isValue (l ++ Shell.printed ws) := by
  refine Shell.not_mem_valueLines (fun hnil => ?_) (fun v hv => ⟨?_, hws v hv⟩) hw hl
  · rw [hnil] at hvalues
    cases hvalues
  · cases hval : isValue v with
    | false => exact (plainElse_isValue v hval).1
    | true =>
      have hmem : v ∈ ws.filter isValue := List.mem_filter.mpr ⟨hv, hval⟩
      rw [hvalues, List.mem_singleton] at hmem
      rw [hmem]
      decide

/-- **Values with an escape sequence are not bound as they are.** -/
theorem asIs_of_intendedValues (hws : ∀ w ∈ ws, '\n' ∉ w) (hlength : (ws.filter isValue).length ≤ 3)
    (h : intendedValues (Shell.valueLines isValue (Shell.printed ws)) =
      intendedValues (ws.filter isValue)) : Shell.AsIs ws := by
  by_contra hnot
  obtain ⟨us, w, vs, rfl, hus, hw⟩ := Shell.exists_of_not_asIs hnot
  have hne : ∀ u, Shell.Unescaped u → w ≠ u := fun u hu heq => hw (heq ▸ hu.firstAsIs vs)
  have hslash : '\\' ∈ w := by
    by_contra hplain
    exact hne w (Shell.unescaped_of_not_mem hplain) rfl
  have hvalue : isValue w = true := plainElse_isValue.value_eq_true hslash
  have hvs : ∀ v ∈ vs, '\n' ∉ v := fun v hv =>
    hws v (List.mem_append_right us (List.mem_cons_of_mem w hv))
  have hunescaped : vs.filter isValue ≠ [] → vs ≠ [] ∧ ¬ Shell.Unescaped w := by
    intro hnil
    refine ⟨?_, fun h => hne w h rfl⟩
    rintro rfl
    exact hnil rfl
  rw [Shell.valueLines_printed_append (fun u hu => ⟨hus u hu, hws u (List.mem_append_left _ hu)⟩)
    (List.cons_ne_nil w vs), List.filter_append, List.filter_cons_of_pos hvalue] at h
  rw [List.filter_append, List.filter_cons_of_pos hvalue, List.length_append, List.length_cons]
    at hlength
  refine intendedValues_ne (List.ne_nil_of_mem hslash)
    (fun u hu => hne u (hus u (List.mem_of_mem_filter hu))) (hne _ (by decide)) (by omega)
    (fun R => Shell.not_prefix_of_not_firstAsIs plainElse_isValue hw) ?_ ?_ h
  · -- `localhost` is what is set when there is no second value
    intro hlast hV
    obtain ⟨hvsne, hwne⟩ := hunescaped (by simp [hlast])
    have hfirst : [] ++ w :: [] <+: Shell.valueLines isValue (Shell.printed (w :: vs)) := by
      rw [hV]
      exact List.prefix_rfl
    obtain ⟨R, l, hl, hbegins⟩ := Shell.exists_begun hwne hvsne hfirst
    exact not_mem_of_localhost hvs hlast hslash hl
      (hbegins.subset (List.mem_append_right R List.mem_cons_self))
  · -- the first value is set for both when there is no second one, and the second is equal to it
    intro x V hvalues hV
    obtain ⟨-, hwne⟩ := hunescaped (by simp [hvalues])
    obtain ⟨ts, l, hsuffix, hl, hts, hfilter, hlines⟩ :=
      Shell.exists_begun_twice plainElse_isValue hwne hvalues (List.cons_ne_nil x []) hV
    constructor
    · rintro rfl
      refine not_mem_of_localhost (fun v hv => hvs v (hsuffix.subset hv)) hfilter hslash hl ?_
      rw [← hlines]
      exact List.mem_cons_self
    · rintro rfl
      have hbegins : [] ++ w :: ts.filter isValue <+:
          Shell.valueLines isValue (l ++ Shell.printed ts) := by
        rw [hfilter, ← hlines]
        exact List.prefix_rfl
      exact Shell.not_prefix_valueLines plainElse_isValue hts hl hbegins

end Values

namespace ArgumentList

variable (a : ArgumentList)

theorem newline_not_mem {w : Text} (hw : w ∈ a.args) : '\n' ∉ w := by
  cases hflag : isOneOf flags w with
  | false => exact (a.positional w hw hflag).2.2
  | true =>
    have hvalue : isValue w = false := by simp [isValue, hflag]
    exact (plainElse_isValue w hvalue).2

theorem values_eq_filter : a.values = a.args.filter isValue := by
  refine List.filter_congr fun w hw => ?_
  cases hflag : isOneOf flags w with
  | false => simp [isValue, hflag, (a.positional w hw hflag).1]
  | true => simp [isValue, hflag]

theorem slots_eq_append : slots a.args = a.args ++ List.replicate (6 - a.args.length) [] := by
  rw [slots_eq, List.take_of_length_le a.length_le]

theorem newline_not_mem_slots {w : Text} (hw : w ∈ slots a.args) : '\n' ∉ w := by
  rw [slots_eq_append, List.mem_append] at hw
  rcases hw with hw | hw
  · exact a.newline_not_mem hw
  · rw [List.eq_of_mem_replicate hw]
    exact List.not_mem_nil

theorem filter_slots {p : Text → Bool} (hp : p [] = false) :
    (slots a.args).filter p = a.args.filter p := by
  rw [slots_eq_append, List.filter_append]
  simp [hp]

theorem valueLines_eq (has : Shell.AsIs (slots a.args)) {p : Text → Bool} (hp : p [] = false) :
    Shell.valueLines p (Shell.printed (slots a.args)) = a.args.filter p := by
  rw [valueLines_slots has (fun w hw => a.newline_not_mem (List.mem_of_mem_take hw)) hp,
    List.take_of_length_le a.length_le]

/-- The arguments are printed as they are when they have no escape sequence. -/
theorem asIs_iff : Shell.AsIs (slots a.args) ↔ (∀ w ∈ a.args.take 5, Shell.Unescaped w) ∧
    ∀ w ∈ a.args.drop 5, Shell.unescape w = (w, true) := by
  have hlength : (slots a.args).length = 6 := by simp [slots]
  have hdrop : (slots a.args).drop 5 = (slots a.args).getLast?.toList := by
    obtain ⟨us, w, hw⟩ := List.eq_nil_or_concat (slots a.args) |>.resolve_left (slots_ne_nil a.args)
    rw [List.concat_eq_append] at hw
    have hus : us.length = 5 := by
      rw [hw, List.length_append, List.length_singleton] at hlength
      omega
    rw [hw, List.getLast?_concat, List.drop_left' hus]
    rfl
  have hlast : (∀ w ∈ (slots a.args).getLast?, Shell.unescape w = (w, true)) ↔
      ∀ w ∈ (slots a.args).drop 5, Shell.unescape w = (w, true) := by
    rw [hdrop]
    simp only [Option.mem_toList, Option.mem_def]
  rw [Shell.asIs_iff, hlast, List.dropLast_eq_take, hlength, slots_eq_append, List.take_append,
    List.drop_append]
  constructor
  · rintro ⟨htake, hdrop⟩
    exact ⟨fun w hw => htake w (List.mem_append_left _ hw), fun w hw =>
      hdrop w (List.mem_append_left _ hw)⟩
  · rintro ⟨htake, hdrop⟩
    constructor
    · intro w hw
      rcases List.mem_append.mp hw with hw | hw
      · exact htake w hw
      · rw [List.eq_of_mem_replicate (List.mem_of_mem_take hw)]
        decide
    · intro w hw
      rcases List.mem_append.mp hw with hw | hw
      · exact hdrop w hw
      · rw [List.eq_of_mem_replicate (List.mem_of_mem_drop hw)]
        rfl

/-- With the arguments printed as they are, a flag is found when it is given once. -/
theorem flagGiven_iff (has : Shell.AsIs (slots a.args)) {flag : Text} (hflag : flag ∈ flags) :
    flagGiven a.args flag = a.hasFlag flag ↔ (a.args.filter (isOneOf [flag])).length ≤ 1 := by
  have hnil : isOneOf [flag] [] = false := by
    revert flag
    decide
  have hany : a.hasFlag flag = decide ((a.args.filter (isOneOf [flag])).length ≠ 0) := by
    rw [hasFlag, Bool.eq_iff_iff, List.any_eq_true, decide_eq_true_iff, Ne,
      List.length_eq_zero_iff, List.filter_eq_nil_iff]
    push Not
    exact Iff.rfl
  rw [flagGiven_eq hflag, a.valueLines_eq has hnil, hany, decide_eq_decide]
  omega

theorem ne_nil_of_mem_values {w : Text} (hw : w ∈ a.values) : w ≠ [] := by
  rw [values_eq_filter] at hw
  have hvalue := (List.mem_filter.mp hw).2
  rintro rfl
  cases hvalue

/-- The parameters that are set, in terms of the lines that are values. -/
theorem paramsOf_eq_iff {glob : Text → List Text} {vs : List Text} (hvs : ∀ v ∈ vs, v ≠ [])
    (hvalues : Avetti.values glob a.args = vs) : paramsOf glob a.args = a.intended ↔
      (∀ flag ∈ flags, flagGiven a.args flag = a.hasFlag flag) ∧
        intendedValues vs = intendedValues a.values := by
  rw [paramsOf, ArgumentList.intended, hvalues, bindValues_eq hvs]
  exact params_eq_iff _ _ _ _ _ _ _

theorem flatMap_expand {glob : Text → List Text} {vs : List Text}
    (h : ∀ v ∈ vs, Shell.expand glob v = [v]) : vs.flatMap (Shell.expand glob) = vs := by
  rw [List.flatMap_congr h, List.flatMap_singleton']

/-- Without pathnames the values are bound as they are only when they are printed as they are. -/
theorem asIs_of_paramsOf (h : paramsOf (fun _ => []) a.args = a.intended) :
    Shell.AsIs (slots a.args) := by
  have hvs : ∀ v ∈ Shell.valueLines isValue (Shell.printed (slots a.args)), v ≠ [] := by
    intro v hv
    have hvalue := (List.mem_filter.mp hv).2
    rintro rfl
    cases hvalue
  have hvalues : Avetti.values (fun _ => []) a.args =
      Shell.valueLines isValue (Shell.printed (slots a.args)) := by
    rw [Avetti.values_eq]
    exact flatMap_expand fun v _ => by simp [Shell.expand]
  have hbound := ((a.paramsOf_eq_iff hvs hvalues).mp h).2
  rw [values_eq_filter, ← a.filter_slots rfl] at hbound
  refine asIs_of_intendedValues (fun w hw => a.newline_not_mem_slots hw) ?_ hbound
  rw [a.filter_slots rfl, ← values_eq_filter]
  exact a.positional_le

/-- The values of arguments that are printed as they are stand for pathnames. -/
theorem values_of_asIs (has : Shell.AsIs (slots a.args)) (glob : Text → List Text) :
    Avetti.values glob a.args = a.values.flatMap (Shell.expand glob) := by
  rw [Avetti.values_eq, a.valueLines_eq has rfl, values_eq_filter]

end ArgumentList

/-- The values are bound as others that are made from them only when they are not changed. -/
theorem eq_of_intendedValues_map {f : Text → Text} {vs : List Text} (hlength : vs.length ≤ 3)
    (h : intendedValues (vs.map f) = intendedValues vs) : ∀ v ∈ vs, f v = v := by
  rcases vs with _ | ⟨r, _ | ⟨a, _ | ⟨b, _ | ⟨c, vs⟩⟩⟩⟩
  · simp
  · simp only [List.map_cons, List.map_nil, intendedValues, Prod.mk.injEq] at h
    simpa using h.1
  · simp only [List.map_cons, List.map_nil, intendedValues, Prod.mk.injEq] at h
    simpa using ⟨h.1, h.2.2⟩
  · simp only [List.map_cons, List.map_nil, intendedValues, Prod.mk.injEq] at h
    simpa using h
  · simp only [List.length_cons] at hlength
    omega

/-- A pattern that stands for a longer name, wherever it can. -/
def longerName (w : Text) : List Text := if Shell.hasWildcard w then [w ++ ['x']] else []

theorem matchesItself_longerName : Shell.MatchesItself longerName := by
  intro w hw
  left
  rw [longerName, hw]
  rfl

theorem expand_longerName (w : Text) :
    Shell.expand longerName w = [if Shell.hasWildcard w then w ++ ['x'] else w] := by
  unfold Shell.expand longerName
  by_cases hw : Shell.hasWildcard w = true
  · rw [if_pos hw, if_pos ⟨Shell.isPattern_of_hasWildcard hw, List.cons_ne_nil _ _⟩, if_pos hw]
  · rw [if_neg hw, if_neg (fun h => h.2 rfl), if_neg hw]

section Runs

variable {glob : Text → List Text} (a : ArgumentList)

/-- Arguments that are bound are set as they say. -/
theorem paramsOf_of_binds (h : Binds glob a) : paramsOf glob a.args = a.intended := by
  have hrun := runs_exec (answering fun _ => ⟨0, ['y']⟩) (parameters glob a.args) ()
  have houtcome := h _ _ hrun fun r hr => congrArg Reply.out (reply_of_mem_exec_answering hr)
  rw [houtcome] at hrun
  exact (ensures_parameters (fun _ _ => True) glob a.args _ _ hrun fun _ _ => trivial).symm

/-- Arguments that are printed as they are pass the check of the options. -/
theorem optionsAccepted_of_asIs (has : Shell.AsIs (slots a.args)) :
    optionsAccepted a.args = pure true := by
  have hhelp : helpLines a.args = [] := by
    rw [helpLines, a.valueLines_eq has (by decide), List.filter_eq_nil_iff]
    intro w hw hask
    have hask : Text.lower w ∈ (["--help", "-h"] : List Text) := of_decide_eq_true hask
    have hflag : isOneOf flags w = false := by
      have hother : ∀ f ∈ (["--help", "-h"] : List Text), f ∉ flags := by decide
      exact decide_eq_false (hother _ hask)
    exact (a.positional w hw hflag).2.1 (head_of_lower hask)
  have hdash : dashLines a.args = [] ∨ flagLines a.args ≠ [] := by
    rw [dashLines, flagLines, a.valueLines_eq has (by decide), a.valueLines_eq has (by decide)]
    refine or_iff_not_imp_left.mpr fun hne => ?_
    obtain ⟨w, hw⟩ := List.exists_mem_of_ne_nil _ hne
    obtain ⟨hw, hdash⟩ := List.mem_filter.mp hw
    obtain ⟨u, rfl⟩ := List.isPrefixOf_iff_prefix.mp hdash
    cases hflag : isOneOf flags ("-".toList ++ u) with
    | false => exact absurd rfl (a.positional _ hw hflag).2.1
    | true => exact List.ne_nil_of_mem (List.mem_filter.mpr ⟨hw, hflag⟩)
  rw [optionsAccepted_eq, hhelp]
  simp only [test, pure_bind', Bool.not_false, Bool.true_and]
  rcases hdash with h | h <;> simp [h]

theorem confirmed_y (glob : Text → List Text) : confirmed glob ['y'] = pure true := rfl

/-- A confirmed run of the parameter phase, when the arguments are printed as they are. -/
theorem binds_of_asIs (has : Shell.AsIs (slots a.args)) (h : paramsOf glob a.args = a.intended) :
    Binds glob a := by
  intro t o hrun hy
  rw [parameters, optionsAccepted_of_asIs a has, hasFlag_eq (by decide), hasFlag_eq (by decide),
    hasFlag_eq (by decide)] at hrun
  simp only [pure_bind', if_true, ask_bind] at hrun
  obtain ⟨r, t', rfl, hanswered⟩ := runs_call_iff.mp hrun
  have hr : r.out = ['y'] := hy r List.mem_cons_self
  rw [hr, confirmed_y] at hanswered
  obtain ⟨-, rfl⟩ := runs_ret_iff.mp hanswered
  exact congrArg _ h

end Runs

/-- **The values of the arguments**: they are bound as they are exactly when no flag is repeated, and
no value has an escape sequence or a wildcard. -/
theorem bindsLiterally_iff (a : ArgumentList) : BindsLiterally a ↔ Literal a := by
  constructor
  · intro h
    have hnone : paramsOf (fun _ => []) a.args = a.intended :=
      paramsOf_of_binds a (h _ fun _ _ => Or.inl rfl)
    have has := a.asIs_of_paramsOf hnone
    have hvalues : values (fun _ => []) a.args = a.values := by
      rw [a.values_of_asIs has]
      exact ArgumentList.flatMap_expand fun v _ => by simp [Shell.expand]
    have hflags := ((a.paramsOf_eq_iff (fun _ => a.ne_nil_of_mem_values) hvalues).mp hnone).1
    obtain ⟨hunescaped, hlast⟩ := a.asIs_iff.mp has
    refine ⟨fun flag hflag => (a.flagGiven_iff has hflag).mp (hflags flag hflag), hunescaped, hlast,
      fun w hw => ?_⟩
    -- in a directory where every pattern stands for a longer name
    have hlonger := paramsOf_of_binds a (h _ matchesItself_longerName)
    have hmap : values longerName a.args =
        a.values.map fun v => if Shell.hasWildcard v then v ++ ['x'] else v := by
      rw [a.values_of_asIs has, List.map_eq_flatMap]
      exact List.flatMap_congr fun v _ => expand_longerName v
    have hne : ∀ v ∈ a.values.map fun v => if Shell.hasWildcard v then v ++ ['x'] else v, v ≠ [] := by
      simp only [List.mem_map]
      rintro _ ⟨v, hv, rfl⟩
      split_ifs
      · simp
      · exact a.ne_nil_of_mem_values hv
    have hbound := ((a.paramsOf_eq_iff hne hmap).mp hlonger).2
    have hw' := eq_of_intendedValues_map a.positional_le hbound w hw
    by_contra hwild
    rw [if_pos (by simpa using hwild)] at hw'
    simp at hw'
  · rintro ⟨honce, hunescaped, hlast, hwild⟩ glob hglob
    have has := a.asIs_iff.mpr ⟨hunescaped, hlast⟩
    have hvalues : values glob a.args = a.values := by
      rw [a.values_of_asIs has]
      exact ArgumentList.flatMap_expand fun v hv => hglob.expand_eq (hwild v hv)
    refine binds_of_asIs a has ((a.paramsOf_eq_iff (fun _ => a.ne_nil_of_mem_values) hvalues).mpr
      ⟨fun flag hflag => (a.flagGiven_iff has hflag).mpr (honce flag hflag), rfl⟩)

/-- The flag `--nojava`, given twice. -/
def nojavaTwice : ArgumentList where
  args := ["--nojava", "--nojava"]
  length_le := by decide
  positional_le := by decide
  positional := by decide

/-- A flag that is given twice is not found. -/
theorem not_bindsLiterally_nojavaTwice : ¬ BindsLiterally nojavaTwice := by
  intro h
  have hparams := paramsOf_of_binds nojavaTwice (h (fun _ => []) fun _ _ => Or.inl rfl)
  have hflag : (paramsOf (fun _ => []) nojavaTwice.args).nojava ≠ nojavaTwice.intended.nojava := by
    decide
  exact hflag (congrArg Params.nojava hparams)

end Avetti
