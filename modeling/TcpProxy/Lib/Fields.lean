import TcpProxy.Lib.IStream

/-!
# Fields of a line

What formatted extraction reads, as a grammar of the text: `HasNumber cs v rest` and
`HasWord cs word rest` say that behind white space `cs` has the numeral of `v`, or the word `word`,
and goes on with `rest`, which does not continue the field. An extraction from `cs` stores the
field and leaves `rest` exactly if `cs` has the field (`extractInt_ok`, `extractInt_of_ok`, ...).
`decimal` writes a number the way it is read.
-/

namespace IStream

/-- The text `rest` does not start with a character of `p`. -/
def Ends (p : Char → Bool) (rest : List Char) : Prop := ∀ c ∈ rest.head?, p c = false

/-- The texts of a decimal number. -/
inductive Decimal : List Char → Int → Prop
  | digits {ds : List Char} (hne : ds ≠ []) (hd : ∀ c ∈ ds, c.isDigit = true) :
      Decimal ds (digitsVal ds)
  | plus {ds : List Char} (hne : ds ≠ []) (hd : ∀ c ∈ ds, c.isDigit = true) :
      Decimal ('+' :: ds) (digitsVal ds)
  | minus {ds : List Char} (hne : ds ≠ []) (hd : ∀ c ∈ ds, c.isDigit = true) :
      Decimal ('-' :: ds) (-(digitsVal ds : Int))

def Blank (cs : List Char) : Prop := ∀ c ∈ cs, isSpace c = true

def HasNumber (cs : List Char) (v : Int) (rest : List Char) : Prop :=
  ∃ sp txt, cs = sp ++ (txt ++ rest) ∧ Blank sp ∧ Decimal txt v ∧ Ends Char.isDigit rest

def HasWord (cs word rest : List Char) : Prop :=
  ∃ sp, cs = sp ++ (word ++ rest) ∧ Blank sp ∧ word ≠ [] ∧ (∀ c ∈ word, isSpace c = false) ∧
    Ends (!isSpace ·) rest

/-- The stream that an extraction leaves at `rest`. -/
def after (rest : List Char) : IStream := ⟨rest, false, rest.isEmpty⟩

/-! ## Runs of characters -/

section
variable {p : Char → Bool} {run rest cs : List Char}

theorem Ends.takeWhile (h : Ends p rest) : rest.takeWhile p = [] := by
  cases rest with
  | nil => rfl
  | cons c cs => rw [List.takeWhile_cons, h c rfl]; rfl

theorem Ends.dropWhile (h : Ends p rest) : rest.dropWhile p = rest := by
  cases rest with
  | nil => rfl
  | cons c cs => rw [List.dropWhile_cons, h c rfl]; rfl

theorem takeWhile_run (hr : ∀ c ∈ run, p c = true) (h : Ends p rest) :
    (run ++ rest).takeWhile p = run := by
  rw [List.takeWhile_append_of_pos hr, h.takeWhile, List.append_nil]

theorem dropWhile_run (hr : ∀ c ∈ run, p c = true) (h : Ends p rest) :
    (run ++ rest).dropWhile p = rest := by rw [List.dropWhile_append_of_pos hr, h.dropWhile]

/-- What is behind a run of characters does not go on with them. -/
theorem ends_dropWhile (p : Char → Bool) (cs : List Char) : Ends p (cs.dropWhile p) := by
  intro c hc
  have h := List.head_dropWhile_not p (l := cs) (by rintro e; rw [e] at hc; cases hc)
  rcases hd : cs.dropWhile p with _ | ⟨d, ds⟩
  · rw [hd] at hc; cases hc
  · rw [hd] at hc
    obtain rfl := Option.some.inj hc
    simpa [hd] using h

/-- A digit is no white space. -/
theorem not_isSpace_of_isDigit {c : Char} (h : c.isDigit = true) : isSpace c = false := by
  have hd : 48 ≤ c.toNat ∧ c.toNat ≤ 57 := by
    simp only [Char.isDigit, Bool.and_eq_true, decide_eq_true_eq] at h
    exact h
  have hs : c ≠ ' ' := by
    rintro rfl
    exact absurd hd.1 (by decide)
  have hr : ¬ c.toNat ≤ 13 := by omega
  simp [isSpace, hs, hr]

end

/-! ## What the scanners find -/

section
variable {cs txt word rest : List Char} {v lo hi : Int}

theorem Decimal.not_isSpace (h : Decimal txt v) : ∀ c ∈ txt, isSpace c = false := by
  intro c hc
  cases h with
  | digits _ hd => exact not_isSpace_of_isDigit (hd c hc)
  | plus _ hd | minus _ hd =>
    rcases List.mem_cons.1 hc with rfl | hc
    · rfl
    · exact not_isSpace_of_isDigit (hd c hc)

theorem Decimal.ne_nil (h : Decimal txt v) : txt ≠ [] := by
  cases h with
  | digits hne => exact hne
  | plus | minus => exact List.cons_ne_nil _ _

/-- A word starts with no white space. -/
theorem ends_isSpace (hne : txt ≠ []) (h : ∀ c ∈ txt, isSpace c = false) (rest : List Char) :
    Ends isSpace (txt ++ rest) := by
  obtain ⟨c, cs, rfl⟩ := List.exists_cons_of_ne_nil hne
  intro d hd
  obtain rfl := Option.some.inj hd
  exact h _ List.mem_cons_self

/-- Where there is no sign, none is taken. -/
theorem scanSign_digit {ds : List Char} (hne : ds ≠ []) (hd : ∀ c ∈ ds, c.isDigit = true)
    (rest : List Char) : scanSign (ds ++ rest) = (false, ds ++ rest) := by
  obtain ⟨d, ds, rfl⟩ := List.exists_cons_of_ne_nil hne
  have hdig := hd d List.mem_cons_self
  have hminus : d ≠ '-' := by rintro rfl; cases hdig
  have hplus : d ≠ '+' := by rintro rfl; cases hdig
  rw [List.cons_append]
  unfold scanSign
  split
  · rename_i e; exact absurd (List.cons.inj e).1 hminus
  · rename_i e; exact absurd (List.cons.inj e).1 hplus
  · rfl

theorem scanSign_cases (cs : List Char) : (∃ ds, cs = '-' :: ds ∧ scanSign cs = (true, ds)) ∨
    (∃ ds, cs = '+' :: ds ∧ scanSign cs = (false, ds)) ∨ scanSign cs = (false, cs) := by
  unfold scanSign
  split
  · exact .inl ⟨_, rfl, rfl⟩
  · exact .inr (.inl ⟨_, rfl, rfl⟩)
  · exact .inr (.inr rfl)

theorem scanNumeral_of_scanSign {neg : Bool} {ds : List Char} (h : scanSign cs = (neg, ds)) :
    scanNumeral cs = ⟨neg, ds.takeWhile Char.isDigit, ds.dropWhile Char.isDigit⟩ := by
  simp only [scanNumeral, h]

theorem scanNumeral_decimal (h : Decimal txt v) (hr : Ends Char.isDigit rest) :
    (scanNumeral (txt ++ rest)).digits ≠ [] ∧ (scanNumeral (txt ++ rest)).val = v ∧
      (scanNumeral (txt ++ rest)).rest = rest := by
  cases h with
  | digits hne hd =>
    rw [scanNumeral_of_scanSign (scanSign_digit hne hd rest), takeWhile_run hd hr,
      dropWhile_run hd hr]
    exact ⟨hne, rfl, rfl⟩
  | @plus ds hne hd =>
    have hs : scanSign ('+' :: ds ++ rest) = (false, ds ++ rest) := rfl
    rw [scanNumeral_of_scanSign hs, takeWhile_run hd hr, dropWhile_run hd hr]
    exact ⟨hne, rfl, rfl⟩
  | @minus ds hne hd =>
    have hs : scanSign ('-' :: ds ++ rest) = (true, ds ++ rest) := rfl
    rw [scanNumeral_of_scanSign hs, takeWhile_run hd hr, dropWhile_run hd hr]
    exact ⟨hne, rfl, rfl⟩

theorem decimal_of_scan (h : (scanNumeral cs).digits ≠ []) :
    ∃ txt, cs = txt ++ (scanNumeral cs).rest ∧ Decimal txt (scanNumeral cs).val ∧
      Ends Char.isDigit (scanNumeral cs).rest := by
  have hdig : ∀ ds : List Char, ∀ c ∈ ds.takeWhile Char.isDigit, c.isDigit = true :=
    fun ds c hc => List.mem_takeWhile_imp hc
  rcases scanSign_cases cs with ⟨ds, rfl, hs⟩ | ⟨ds, rfl, hs⟩ | hs
  all_goals rw [scanNumeral_of_scanSign hs] at h ⊢
  · exact ⟨_, by simp, .minus h (hdig ds), ends_dropWhile _ _⟩
  · exact ⟨_, by simp, .plus h (hdig ds), ends_dropWhile _ _⟩
  · exact ⟨_, by simp, .digits h (hdig cs), ends_dropWhile _ _⟩

theorem hasNumber_iff : HasNumber cs v rest ↔
    (scanNumeral (cs.dropWhile isSpace)).digits ≠ [] ∧
      (scanNumeral (cs.dropWhile isSpace)).val = v ∧
      (scanNumeral (cs.dropWhile isSpace)).rest = rest := by
  constructor
  · rintro ⟨sp, txt, rfl, hsp, hd, hr⟩
    rw [dropWhile_run hsp (ends_isSpace hd.ne_nil hd.not_isSpace rest)]
    exact scanNumeral_decimal hd hr
  · rintro ⟨hne, rfl, rfl⟩
    obtain ⟨txt, he, hd, hr⟩ := decimal_of_scan hne
    refine ⟨cs.takeWhile isSpace, txt, ?_, fun c hc => List.mem_takeWhile_imp hc, hd, hr⟩
    rw [← he, List.takeWhile_append_dropWhile]

theorem hasWord_iff : HasWord cs word rest ↔ cs.dropWhile isSpace ≠ [] ∧
    (cs.dropWhile isSpace).takeWhile (!isSpace ·) = word ∧
    (cs.dropWhile isSpace).dropWhile (!isSpace ·) = rest := by
  constructor
  · rintro ⟨sp, rfl, hsp, hne, hw, hr⟩
    have hw' : ∀ c ∈ word, (!isSpace c) = true := fun c hc => by rw [hw c hc]; rfl
    rw [dropWhile_run hsp (ends_isSpace hne hw rest), takeWhile_run hw' hr, dropWhile_run hw' hr]
    exact ⟨by simp [hne], rfl, rfl⟩
  · rintro ⟨hne, rfl, rfl⟩
    refine ⟨cs.takeWhile isSpace, ?_, fun c hc => List.mem_takeWhile_imp hc, ?_, fun c hc => ?_,
      ends_dropWhile _ _⟩
    · rw [List.takeWhile_append_dropWhile, List.takeWhile_append_dropWhile]
    · obtain ⟨c, ds, hd⟩ := List.exists_cons_of_ne_nil hne
      have hc := ends_dropWhile isSpace cs c (by rw [hd]; rfl)
      rw [hd, List.takeWhile_cons, hc]
      simp
    · simpa using List.mem_takeWhile_imp hc

theorem HasWord.ne_nil (h : HasWord cs word rest) : word ≠ [] := by
  obtain ⟨-, -, -, hne, -⟩ := h
  exact hne

theorem HasWord.not_isSpace (h : HasWord cs word rest) : ∀ c ∈ word, isSpace c = false := by
  obtain ⟨-, -, -, -, hw, -⟩ := h
  exact hw

/-- A text has one number at its front, or none. -/
theorem HasNumber.unique {v' : Int} {rest' : List Char} (h : HasNumber cs v rest)
    (h' : HasNumber cs v' rest') : v = v' ∧ rest = rest' := by
  obtain ⟨-, rfl, rfl⟩ := hasNumber_iff.1 h
  exact (hasNumber_iff.1 h').2

theorem HasWord.unique {word' rest' : List Char} (h : HasWord cs word rest)
    (h' : HasWord cs word' rest') : word = word' ∧ rest = rest' := by
  obtain ⟨-, rfl, rfl⟩ := hasWord_iff.1 h
  exact (hasWord_iff.1 h').2

/-! ## What the extractions do -/

theorem sentry_after (cs : List Char) : (after cs).sentry =
    if cs.dropWhile isSpace = [] then ⟨[], true, true⟩
    else ⟨cs.dropWhile isSpace, false, false⟩ := by
  cases cs with
  | nil => rfl
  | cons c cs =>
    unfold sentry after
    rw [if_neg (by simp)]
    dsimp only
    split
    · rename_i e; rw [if_pos e]
    · rename_i e; rw [if_neg e]

theorem body_ne_nil (h : HasNumber cs v rest) : cs.dropWhile isSpace ≠ [] := by
  intro e
  obtain ⟨hne, -⟩ := hasNumber_iff.1 h
  rw [e] at hne
  exact hne rfl

/-- White space before a number is skipped. -/
theorem sentry_number (h : HasNumber cs v rest) :
    (after cs).sentry = ⟨cs.dropWhile isSpace, false, false⟩ := by
  rw [sentry_after, if_neg (body_ne_nil h)]

theorem extractInt_ok (h : HasNumber cs v rest) (hlo : lo ≤ v) (hhi : v ≤ hi) :
    (after cs).extractInt lo hi = (some v, after rest) := by
  unfold extractInt
  rw [sentry_number h]
  obtain ⟨hne, rfl, rfl⟩ := hasNumber_iff.1 h
  simp only [Bool.false_eq_true, ↓reduceIte, List.isEmpty_iff, hne, if_neg (Int.not_lt.2 hlo),
    if_neg (Int.not_lt.2 hhi), after]

theorem extractInt_of_ok (h : ((after cs).extractInt lo hi).2.fail = false) :
    ∃ v rest, HasNumber cs v rest ∧ lo ≤ v ∧ v ≤ hi := by
  unfold extractInt at h
  rw [sentry_after] at h
  by_cases hbody : cs.dropWhile isSpace = []
  · simp [hbody] at h
  simp only [if_neg hbody, Bool.false_eq_true, ↓reduceIte] at h
  split at h
  · cases h
  split at h
  · cases h
  split at h
  · cases h
  rename_i hne hlo hhi
  exact ⟨_, _, hasNumber_iff.2 ⟨by simpa using hne, rfl, rfl⟩, Int.not_lt.1 hlo, Int.not_lt.1 hhi⟩

theorem extractString_word (h : HasWord cs word rest) :
    (after cs).extractString = (some word, after rest) := by
  obtain ⟨hbody, rfl, rfl⟩ := hasWord_iff.1 h
  unfold extractString
  rw [sentry_after, if_neg hbody]
  rfl

theorem extractString_of_ok (h : (after cs).extractString.2.fail = false) :
    ∃ word rest, HasWord cs word rest := by
  unfold extractString at h
  rw [sentry_after] at h
  by_cases hbody : cs.dropWhile isSpace = []
  · simp [hbody] at h
  · exact ⟨_, _, hasWord_iff.2 ⟨hbody, rfl, rfl⟩⟩

/-- The digits of a numeral are its number without the sign. -/
theorem Numeral.natAbs_val (n : Numeral) : n.val.natAbs = digitsVal n.digits := by
  unfold Numeral.val
  split <;> omega

theorem extractUnsigned_ok {w : Nat} (h : HasNumber cs v rest) (hv : v.natAbs < 2 ^ w) :
    (after cs).extractUnsigned w = (some (BitVec.ofInt w v), after rest) := by
  unfold extractUnsigned
  rw [sentry_number h]
  obtain ⟨hne, rfl, rfl⟩ := hasNumber_iff.1 h
  rw [Numeral.natAbs_val] at hv
  simp only [Bool.false_eq_true, ↓reduceIte, List.isEmpty_iff, hne, if_neg (Nat.not_le.2 hv),
    after]

theorem extractUnsigned_large {w : Nat} (h : HasNumber cs v rest) (hv : 2 ^ w ≤ v.natAbs) :
    (after cs).extractUnsigned w = (some (BitVec.allOnes w), ⟨rest, true, rest.isEmpty⟩) := by
  unfold extractUnsigned
  rw [sentry_number h]
  obtain ⟨hne, rfl, rfl⟩ := hasNumber_iff.1 h
  rw [Numeral.natAbs_val] at hv
  simp only [Bool.false_eq_true, ↓reduceIte, List.isEmpty_iff, hne, if_pos hv]

theorem sign_ends {c : Char} (hc : c = '+' ∨ c = '-') : Ends isSpace [c] := by
  refine ends_isSpace (List.cons_ne_nil c []) (fun d hd => ?_) []
  obtain rfl := List.mem_singleton.1 hd
  rcases hc with rfl | rfl <;> rfl

/-- A field that is cut short by the end of the text: nothing but white space, or a sign. -/
def CutShort (cs : List Char) : Prop :=
  Blank cs ∨ ∃ sp c, cs = sp ++ [c] ∧ Blank sp ∧ (c = '+' ∨ c = '-')

/-- There is no number in it. -/
theorem CutShort.no_number (h : CutShort cs) : ¬ HasNumber cs v rest := by
  intro hn
  rcases h with hb | ⟨sp, c, rfl, hsp, hc⟩
  · exact body_ne_nil hn (List.dropWhile_eq_nil_iff.2 hb)
  · have hne := (hasNumber_iff.1 hn).1
    rw [dropWhile_run hsp (sign_ends hc)] at hne
    rcases hc with rfl | rfl <;> exact hne rfl

theorem extractUnsigned_none {w : Nat} (h : ∀ v rest, ¬ HasNumber cs v rest) :
    ((after cs).extractUnsigned w).2.fail = true ∧
      (((after cs).extractUnsigned w).2.eof = true ↔ CutShort cs) := by
  unfold extractUnsigned
  rw [sentry_after]
  by_cases hbody : cs.dropWhile isSpace = []
  · simp only [if_pos hbody, ↓reduceIte, true_and, true_iff]
    exact .inl (List.dropWhile_eq_nil_iff.1 hbody)
  have hne : (scanNumeral (cs.dropWhile isSpace)).digits = [] := by
    by_contra hne
    exact h _ _ (hasNumber_iff.2 ⟨hne, rfl, rfl⟩)
  simp only [if_neg hbody, Bool.false_eq_true, ↓reduceIte, hne, List.isEmpty_nil, true_and,
    List.isEmpty_iff]
  constructor
  · -- where nothing follows and there are no digits, a sign is all there is
    intro hrest
    have hsplit := List.takeWhile_append_dropWhile (p := isSpace) (l := cs)
    refine .inr ⟨cs.takeWhile isSpace, ?_⟩
    have hsp : Blank (cs.takeWhile isSpace) := fun c hc => List.mem_takeWhile_imp hc
    have hall : ∀ ds : List Char, ds.takeWhile Char.isDigit = [] →
        ds.dropWhile Char.isDigit = [] → ds = [] := fun ds h1 h2 => by
      rw [← List.takeWhile_append_dropWhile (p := Char.isDigit) (l := ds), h1, h2, List.nil_append]
    rcases scanSign_cases (cs.dropWhile isSpace) with ⟨ds, he, hs⟩ | ⟨ds, he, hs⟩ | hs
    all_goals rw [scanNumeral_of_scanSign hs] at hne hrest
    · obtain rfl := hall ds hne hrest
      exact ⟨'-', by rw [← he, hsplit], hsp, .inr rfl⟩
    · obtain rfl := hall ds hne hrest
      exact ⟨'+', by rw [← he, hsplit], hsp, .inl rfl⟩
    · exact absurd (hall _ hne hrest) hbody
  · rintro (hb | ⟨sp, c, rfl, hsp, hc⟩)
    · exact absurd (List.dropWhile_eq_nil_iff.2 hb) hbody
    · rw [dropWhile_run hsp (sign_ends hc)]
      rcases hc with rfl | rfl <;> rfl

/-! ## Writing numbers -/

/-- The text of a number. -/
def decimal : Int → List Char
  | .ofNat n => Nat.toDigits 10 n
  | .negSucc n => '-' :: Nat.toDigits 10 (n + 1)

theorem digitsVal_toDigits (n : Nat) : digitsVal (Nat.toDigits 10 n) = n := by
  have h := Nat.ofDigitChars_ten_toDigits (n := n)
  rw [Nat.ofDigitChars_eq_foldl] at h
  exact h

theorem decimal_spec (v : Int) : Decimal (decimal v) v := by
  have hd : ∀ n, ∀ c ∈ Nat.toDigits 10 n, c.isDigit = true := fun n c hc =>
    Nat.isDigit_of_mem_toDigits (by decide) (by decide) hc
  cases v with
  | ofNat n =>
    have h := Decimal.digits Nat.toDigits_ne_nil (hd n)
    rw [digitsVal_toDigits] at h
    exact h
  | negSucc n =>
    have h := Decimal.minus Nat.toDigits_ne_nil (hd (n + 1))
    rw [digitsVal_toDigits] at h
    exact h

end

end IStream
