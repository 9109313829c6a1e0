import Mathlib.Tactic.Common

/-!
# `getopt`

GNU `getopt` on the arguments behind the program's name, where the environment does not set
`POSIXLY_CORRECT`: arguments that are no options are passed over, `--` ends the options. `Spec` is
the option string: which characters are options and which of them take an argument. `items` is what
the calls return until the first `-1`.

`Writes O args is`: the arguments are a well-formed command line with the options `is`, grouped
behind one dash or not, their arguments attached or separate. `getopt` finds no fault with exactly
these, and returns their options (`items_iff`).
-/

namespace Getopt

/-- A command-line argument. -/
abbrev Arg := List Char

/-- The option string: none for a character that is no option, else whether it takes an
argument. -/
abbrev Spec := Char → Option Bool

/-- What a call returns: an option with its argument, or `?`. -/
inductive Item
  | opt (c : Char) (arg : Option Arg)
  | bad
  deriving DecidableEq, Repr

/-- Where a call goes on: `nextchar`, and the arguments not looked at yet. -/
structure Scan where
  nextchar : List Char
  rest : List Arg

/-- What is left: the characters, and an end for each argument. -/
def Scan.size (s : Scan) : Nat := s.nextchar.length + s.rest.flatten.length + s.rest.length

variable (O : Spec)

/-- The character `c` of an option element, with `cs` behind it. -/
def option (c : Char) (cs : List Char) (rest : List Arg) : Item × Scan :=
  match O c with
  | none => (.bad, ⟨cs, rest⟩)
  | some false => (.opt c none, ⟨cs, rest⟩)
  | some true =>
    if cs.isEmpty then
      match rest with
      | [] => (.bad, ⟨[], []⟩)
      | arg :: rest => (.opt c (some arg), ⟨[], rest⟩)
    else (.opt c (some cs), ⟨[], rest⟩)

/-- The next option element. -/
def element : List Arg → Option (Item × Scan)
  | [] => none
  | arg :: rest =>
    if arg = ['-', '-'] then none
    else
      match arg with
      | '-' :: c :: cs => some (option O c cs rest)
      | _ => element rest

/-- One call, `none` where it returns -1. -/
def getopt (s : Scan) : Option (Item × Scan) :=
  match s.nextchar with
  | [] => element O s.rest
  | c :: cs => some (option O c cs s.rest)

variable {O}

theorem option_size (c : Char) (cs : List Char) (rest : List Arg) :
    (option O c cs rest).2.size ≤ cs.length + rest.flatten.length + rest.length := by
  unfold option
  split
  · exact Nat.le_refl _
  · exact Nat.le_refl _
  · split
    · rcases rest with _ | ⟨arg, rest⟩
      · simp [Scan.size]
      · simp only [Scan.size, List.flatten_cons, List.length_append, List.length_cons,
          List.length_nil]
        omega
    · simp only [Scan.size, List.length_nil]
      omega

theorem element_size {args : List Arg} {i : Item} {s : Scan}
    (h : element O args = some (i, s)) : s.size < args.flatten.length + args.length := by
  fun_induction element O args with
  | case1 | case2 => cases h
  | case3 rest c cs =>
    have hle : (option O c cs rest).2.size ≤ _ := option_size c cs rest
    rw [Option.some.inj h] at hle
    simp only [List.flatten_cons, List.length_append, List.length_cons] at hle ⊢
    omega
  | case4 arg rest _ _ ih =>
    have hlt := ih h
    simp only [List.flatten_cons, List.length_append, List.length_cons]
    omega

/-- Every call gets further. -/
theorem getopt_size {s s' : Scan} {i : Item} (h : getopt O s = some (i, s')) :
    s'.size < s.size := by
  rcases s with ⟨_ | ⟨c, cs⟩, rest⟩
  · simpa [Scan.size] using element_size h
  · have hle : (option O c cs rest).2.size ≤ _ := option_size c cs rest
    rw [Option.some.inj h] at hle
    simp only [Scan.size, List.length_cons] at hle ⊢
    omega

variable (O) in
/-- What the calls return until the first -1. -/
def items (s : Scan) : List Item :=
  match _h : getopt O s with
  | none => []
  | some (i, s') => i :: items s'
termination_by s.size
decreasing_by exact getopt_size ‹_›

theorem items_of_none {s : Scan} (h : getopt O s = none) : items O s = [] := by
  rw [items]
  split
  · rfl
  · rename_i h'; rw [h] at h'; cases h'

theorem items_of_some {s s' : Scan} {i : Item} (h : getopt O s = some (i, s')) :
    items O s = i :: items O s' := by
  rw [items]
  split
  · rename_i h'; rw [h] at h'; cases h'
  · rename_i h'
    obtain ⟨rfl, rfl⟩ := Prod.mk.inj (Option.some.inj (h.symm.trans h'))
    rfl

/-! ## Command lines -/

/-- The argument is no option. -/
def Operand (arg : Arg) : Prop := arg = ['-'] ∨ arg.head? ≠ some '-'

theorem of_not_operand {arg : Arg} (h : ¬ Operand arg) : ∃ cs, cs ≠ [] ∧ arg = '-' :: cs := by
  simp only [Operand, not_or, not_not] at h
  rcases arg with _ | ⟨d, cs⟩
  · cases h.2
  · obtain rfl := Option.some.inj h.2
    exact ⟨cs, fun e => h.1 (by rw [e]), rfl⟩

variable (O) in
/-- The arguments are a command line with the given options. -/
inductive Writes : List Arg → List Item → Prop
  | nil : Writes [] []
  | stop (rest : List Arg) : Writes (['-', '-'] :: rest) []
  | operand {arg : Arg} {rest : List Arg} {is : List Item} (ha : Operand arg)
      (h : Writes rest is) : Writes (arg :: rest) is
  | flags {fs : List Char} {rest : List Arg} {is : List Item} (hne : fs ≠ [])
      (hf : ∀ c ∈ fs, O c = some false) (h : Writes rest is) :
      Writes (('-' :: fs) :: rest) (fs.map (.opt · none) ++ is)
  | attached {fs : List Char} {c : Char} {arg : Arg} {rest : List Arg} {is : List Item}
      (hf : ∀ c ∈ fs, O c = some false) (hc : O c = some true) (ha : arg ≠ [])
      (h : Writes rest is) :
      Writes (('-' :: (fs ++ c :: arg)) :: rest) (fs.map (.opt · none) ++ .opt c (some arg) :: is)
  | separate {fs : List Char} {c : Char} {arg : Arg} {rest : List Arg} {is : List Item}
      (hf : ∀ c ∈ fs, O c = some false) (hc : O c = some true) (h : Writes rest is) :
      Writes (('-' :: (fs ++ [c])) :: arg :: rest)
        (fs.map (.opt · none) ++ .opt c (some arg) :: is)

section
variable {c : Char} {cs fs : List Char} {arg : Arg} {rest : List Arg} {is : List Item}

theorem items_bad (hc : O c = none) :
    items O ⟨c :: cs, rest⟩ = .bad :: items O ⟨cs, rest⟩ :=
  items_of_some (by simp [getopt, option, hc])

theorem items_flag (hc : O c = some false) :
    items O ⟨c :: cs, rest⟩ = .opt c none :: items O ⟨cs, rest⟩ :=
  items_of_some (by simp [getopt, option, hc])

theorem items_attached (hc : O c = some true) (ha : arg ≠ []) :
    items O ⟨c :: arg, rest⟩ = .opt c (some arg) :: items O ⟨[], rest⟩ :=
  items_of_some (by simp [getopt, option, hc, ha])

theorem items_separate (hc : O c = some true) :
    items O ⟨[c], arg :: rest⟩ = .opt c (some arg) :: items O ⟨[], rest⟩ :=
  items_of_some (by simp [getopt, option, hc])

/-- The argument of an option is missing. -/
theorem items_missing (hc : O c = some true) : items O ⟨[c], []⟩ = .bad :: items O ⟨[], []⟩ :=
  items_of_some (by simp [getopt, option, hc])

theorem items_flags (hf : ∀ c ∈ fs, O c = some false) :
    items O ⟨fs ++ cs, rest⟩ = fs.map (.opt · none) ++ items O ⟨cs, rest⟩ := by
  induction fs with
  | nil => rfl
  | cons f fs ih =>
    rw [List.cons_append, items_flag (hf f List.mem_cons_self),
      ih fun c hc => hf c (List.mem_cons_of_mem f hc), List.map_cons, List.cons_append]

theorem items_all_flags (hf : ∀ c ∈ fs, O c = some false) :
    items O ⟨fs, rest⟩ = fs.map (.opt · none) ++ items O ⟨[], rest⟩ := by
  have h : items O ⟨fs ++ [], rest⟩ = _ := items_flags hf
  rwa [List.append_nil] at h

theorem items_nil : items O ⟨[], []⟩ = [] := items_of_none rfl

theorem items_stop : items O ⟨[], ['-', '-'] :: rest⟩ = [] := items_of_none rfl

/-- The calls go on at the next element. -/
theorem items_congr {s t : Scan} (h : getopt O s = getopt O t) : items O s = items O t := by
  rcases ht : getopt O t with _ | ⟨i, u⟩
  · rw [items_of_none ht, items_of_none (h.trans ht)]
  · rw [items_of_some ht, items_of_some (h.trans ht)]

theorem items_operand (ha : Operand arg) :
    items O ⟨[], arg :: rest⟩ = items O ⟨[], rest⟩ := by
  refine items_congr ?_
  rcases ha with rfl | ha
  · rfl
  · rcases arg with _ | ⟨d, arg⟩
    · rfl
    · have hd : d ≠ '-' := fun e => ha (by rw [e]; rfl)
      simp [getopt, element, hd]

theorem items_element (hne : cs ≠ []) (hd : cs ≠ ['-']) :
    items O ⟨[], ('-' :: cs) :: rest⟩ = items O ⟨cs, rest⟩ := by
  refine items_congr ?_
  obtain ⟨c, cs, rfl⟩ := List.exists_cons_of_ne_nil hne
  have hstop : ('-' :: c :: cs) ≠ ['-', '-'] := fun e => hd (List.cons.inj e).2
  simp [getopt, element, hstop]

/-- The options of an element without a fault: flags, and then perhaps an option with its
argument. -/
theorem items_cluster (hb : .bad ∉ items O ⟨cs, rest⟩) :
    ∃ fs, (∀ c ∈ fs, O c = some false) ∧
      (cs = fs ∨ (∃ c arg, cs = fs ++ c :: arg ∧ O c = some true ∧ arg ≠ []) ∨
        ∃ c arg rest', cs = fs ++ [c] ∧ rest = arg :: rest' ∧ O c = some true) := by
  induction cs with
  | nil => exact ⟨[], nofun, .inl rfl⟩
  | cons c cs ih =>
    rcases hc : O c with _ | _ | _
    · rw [items_bad hc] at hb
      exact absurd List.mem_cons_self hb
    · rw [items_flag hc] at hb
      obtain ⟨fs, hf, hcs⟩ := ih fun h => hb (List.mem_cons_of_mem _ h)
      refine ⟨c :: fs, ?_, ?_⟩
      · intro d hd
        rcases List.mem_cons.1 hd with rfl | hd
        · exact hc
        · exact hf d hd
      · rcases hcs with rfl | ⟨d, arg, rfl, hd⟩ | ⟨d, arg, rest', rfl, hd⟩
        · exact .inl rfl
        · exact .inr (.inl ⟨d, arg, rfl, hd⟩)
        · exact .inr (.inr ⟨d, arg, rest', rfl, hd⟩)
    · refine ⟨[], nofun, .inr ?_⟩
      rcases cs with _ | ⟨d, cs⟩
      · rcases rest with _ | ⟨arg, rest⟩
        · rw [items_missing hc] at hb
          exact absurd List.mem_cons_self hb
        · exact .inr ⟨c, arg, rest, rfl, rfl, hc⟩
      · exact .inl ⟨c, d :: cs, rfl, hc, List.cons_ne_nil _ _⟩

end

variable {args : List Arg} {is : List Item}

theorem Writes.flag {c : Char} {rest : List Arg} (hc : O c = some false) (h : Writes O rest is) :
    Writes O (['-', c] :: rest) (.opt c none :: is) :=
  .flags (List.cons_ne_nil c []) (by simpa using hc) h

theorem Writes.value {c : Char} {arg : Arg} {rest : List Arg} (hc : O c = some true)
    (h : Writes O rest is) : Writes O (['-', c] :: arg :: rest) (.opt c (some arg) :: is) := by
  have hf : ∀ f ∈ ([] : List Char), O f = some false := fun f hf => absurd hf List.not_mem_nil
  exact .separate hf hc h

/-- The options of a well-formed command line are returned. -/
theorem Writes.items_eq (hdash : O '-' = none) (h : Writes O args is) :
    items O ⟨[], args⟩ = is := by
  -- no element of options is `--`
  have hgo : ∀ {fs c} {cs : List Char}, (∀ f ∈ fs, O f = some false) → O c = some true →
      fs ++ c :: cs ≠ ['-'] := by
    intro fs c cs hf hc e
    rcases fs with _ | ⟨f, fs⟩
    · rw [(List.cons.inj e).1, hdash] at hc
      cases hc
    · have := hf f List.mem_cons_self
      rw [(List.cons.inj e).1, hdash] at this
      cases this
  induction h with
  | nil => exact items_nil
  | stop rest => exact items_stop
  | operand ha _ ih => rw [items_operand ha, ih]
  | @flags fs rest is hne hf _ ih =>
    have hd : fs ≠ ['-'] := by
      rintro rfl
      have := hf '-' List.mem_cons_self
      rw [hdash] at this
      cases this
    rw [items_element hne hd, items_all_flags hf, ih]
  | attached hf hc ha _ ih =>
    rw [items_element (by simp) (hgo hf hc), items_flags hf, items_attached hc ha, ih]
  | separate hf hc _ ih =>
    rw [items_element (by simp) (hgo hf hc), items_flags hf, items_separate hc, ih]

/-- The options of a well-formed command line are those of the option string, with an argument
where they take one. -/
theorem Writes.typed (h : Writes O args is) : ∀ i ∈ is, (∃ c, i = .opt c none ∧ O c = some false) ∨
    ∃ c arg, i = .opt c (some arg) ∧ O c = some true := by
  have hflags : ∀ {fs : List Char}, (∀ c ∈ fs, O c = some false) →
      ∀ i : Item, i ∈ fs.map (.opt · none) → ∃ c, i = .opt c none ∧ O c = some false := by
    intro fs hf i hi
    obtain ⟨c, hc, rfl⟩ := List.mem_map.1 hi
    exact ⟨c, rfl, hf c hc⟩
  induction h with
  | nil | stop => nofun
  | operand _ _ ih => exact ih
  | flags _ hf _ ih =>
    intro i hi
    rcases List.mem_append.1 hi with hi | hi
    · exact .inl (hflags hf i hi)
    · exact ih i hi
  | @attached fs c arg rest is hf hc _ _ ih | @separate fs c arg rest is hf hc _ ih =>
    intro i hi
    rcases List.mem_append.1 hi with hi | hi
    · exact .inl (hflags hf i hi)
    · rcases List.mem_cons.1 hi with rfl | hi
      · exact .inr ⟨c, arg, rfl, hc⟩
      · exact ih i hi

theorem Writes.not_bad (h : Writes O args is) : .bad ∉ is := by
  induction h with
  | nil | stop => exact List.not_mem_nil
  | operand _ _ ih => exact ih
  | flags _ _ _ ih | attached _ _ _ _ ih | separate _ _ _ ih => simp [ih]

/-- A command line in which `getopt` finds no fault is well-formed. -/
theorem writes_items : ∀ {args : List Arg}, .bad ∉ items O ⟨[], args⟩ →
    Writes O args (items O ⟨[], args⟩)
  | [], _ => items_nil ▸ .nil
  | arg :: rest, hb => by
    by_cases hop : Operand arg
    · rw [items_operand hop] at hb ⊢
      exact .operand hop (writes_items hb)
    · obtain ⟨cs, hne, rfl⟩ := of_not_operand hop
      by_cases hd : cs = ['-']
      · subst hd
        exact items_stop ▸ .stop rest
      · rw [items_element hne hd] at hb ⊢
        obtain ⟨fs, hf, rfl | ⟨c, arg, rfl, hc, ha⟩ | ⟨c, arg, rest', rfl, rfl, hc⟩⟩ :=
          items_cluster hb
        · rw [items_all_flags hf] at hb ⊢
          exact .flags hne hf (writes_items fun h => hb (List.mem_append_right _ h))
        · rw [items_flags hf, items_attached hc ha] at hb ⊢
          refine .attached hf hc ha (writes_items fun h => hb ?_)
          exact List.mem_append_right _ (List.mem_cons_of_mem _ h)
        · rw [items_flags hf, items_separate hc] at hb ⊢
          refine .separate hf hc (writes_items fun h => hb ?_)
          exact List.mem_append_right _ (List.mem_cons_of_mem _ h)

/-- **`getopt` finds no fault with exactly the well-formed command lines**, and returns their
options. -/
theorem items_iff (hdash : O '-' = none) :
    Writes O args is ↔ items O ⟨[], args⟩ = is ∧ .bad ∉ is := by
  refine ⟨fun h => ⟨h.items_eq hdash, h.not_bad⟩, fun ⟨his, hb⟩ => ?_⟩
  subst his
  exact writes_items hb

end Getopt
