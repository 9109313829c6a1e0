import Mathlib.Algebra.Group.Int.Defs
import Mathlib.Algebra.Group.Nat.Defs
import Mathlib.Tactic.Common
import Mathlib.Data.List.TakeWhile

/-!
# Formatted extraction from an input string stream

C++11's `std::istringstream` over the characters not read yet, with its `failbit` and `eofbit`:
`getline`, and `operator>>` into a string, a signed and an unsigned integer (classic locale,
decimal). An extraction returns what it stores in the variable, `none` where the variable keeps
its value: that is where the stream is not good or holds only white space. A field without a digit
stores zero and fails; a number out of range stores the nearest bound and fails; an unsigned
target takes a `-` sign and negates modulo its range.
-/

/-- The characters left, `failbit` and `eofbit`. -/
@[ext]
structure IStream where
  rest : List Char
  fail : Bool
  eof : Bool
  deriving DecidableEq, Repr

namespace IStream

def ofString (cs : List Char) : IStream := ⟨cs, false, false⟩

/-- `std::isspace`. -/
def isSpace (c : Char) : Bool := c == ' ' || (9 ≤ c.toNat && c.toNat ≤ 13)

/-- `std::getline`: the characters up to the next newline, which is consumed. -/
def getline (s : IStream) : List Char × IStream :=
  if s.fail || s.eof then ([], { s with fail := true })
  else
    let line := s.rest.takeWhile (· ≠ '\n')
    match s.rest.dropWhile (· ≠ '\n') with
    | [] => (line, ⟨[], line.isEmpty, true⟩)
    | _ :: rest => (line, ⟨rest, false, false⟩)

/-- The sentry of a formatted extraction: skips white space, fails if nothing is left. -/
def sentry (s : IStream) : IStream :=
  if s.fail || s.eof then { s with fail := true }
  else
    match s.rest.dropWhile isSpace with
    | [] => ⟨[], true, true⟩
    | rest => ⟨rest, false, false⟩

/-- `is >> std::string`. -/
def extractString (s : IStream) : Option (List Char) × IStream :=
  let s := s.sentry
  if s.fail then (none, s)
  else
    let rest := s.rest.dropWhile (!isSpace ·)
    (some (s.rest.takeWhile (!isSpace ·)), ⟨rest, false, rest.isEmpty⟩)

/-! ## Numbers -/

/-- A number's field: its sign, its digits and what follows. -/
structure Numeral where
  neg : Bool
  digits : List Char
  rest : List Char
  deriving DecidableEq, Repr

def scanSign : List Char → Bool × List Char
  | '-' :: cs => (true, cs)
  | '+' :: cs => (false, cs)
  | cs => (false, cs)

def scanNumeral (cs : List Char) : Numeral :=
  let (neg, cs) := scanSign cs
  ⟨neg, cs.takeWhile Char.isDigit, cs.dropWhile Char.isDigit⟩

def digitsVal (ds : List Char) : Nat := ds.foldl (fun n c => 10 * n + (c.toNat - '0'.toNat)) 0

/-- The number a numeral writes. -/
def Numeral.val (n : Numeral) : Int :=
  if n.neg then -(digitsVal n.digits : Int) else digitsVal n.digits

/-- `is >> n` for a signed integer `n` in `[lo, hi]`. -/
def extractInt (lo hi : Int) (s : IStream) : Option Int × IStream :=
  let s := s.sentry
  if s.fail then (none, s)
  else
    let n := scanNumeral s.rest
    let eof := n.rest.isEmpty
    if n.digits.isEmpty then (some 0, ⟨n.rest, true, eof⟩)
    else if n.val < lo then (some lo, ⟨n.rest, true, eof⟩)
    else if hi < n.val then (some hi, ⟨n.rest, true, eof⟩)
    else (some n.val, ⟨n.rest, false, eof⟩)

/-- `is >> n` for an unsigned integer `n` of `w` bits. -/
def extractUnsigned (w : Nat) (s : IStream) : Option (BitVec w) × IStream :=
  let s := s.sentry
  if s.fail then (none, s)
  else
    let n := scanNumeral s.rest
    let eof := n.rest.isEmpty
    if n.digits.isEmpty then (some 0, ⟨n.rest, true, eof⟩)
    else if 2 ^ w ≤ digitsVal n.digits then (some (BitVec.allOnes w), ⟨n.rest, true, eof⟩)
    else (some (BitVec.ofInt w n.val), ⟨n.rest, false, eof⟩)

/-! ## What an extraction leaves -/

/-- The one line of a text without a newline. -/
theorem getline_ofLine {line : List Char} (hne : line ≠ []) (hnl : '\n' ∉ line) :
    (ofString line).getline = (line, ⟨[], false, true⟩) := by
  have hline : ∀ c ∈ line, decide (c ≠ '\n') = true := fun c hc =>
    decide_eq_true fun e => hnl (e ▸ hc)
  rw [getline, if_neg (by simp [ofString])]
  dsimp only [ofString]
  rw [List.takeWhile_eq_self_iff.2 hline, List.dropWhile_eq_nil_iff.2 hline]
  simp [hne]

/-- A line that is ended by a newline. -/
theorem getline_line {line : List Char} (hnl : '\n' ∉ line) (rest : List Char) :
    (ofString (line ++ '\n' :: rest)).getline = (line, ofString rest) := by
  have hline : ∀ c ∈ line, decide (c ≠ '\n') = true := fun c hc =>
    decide_eq_true fun e => hnl (e ▸ hc)
  rw [getline, if_neg (by simp [ofString])]
  dsimp only [ofString]
  rw [List.takeWhile_append_of_pos hline, List.dropWhile_append_of_pos hline]
  simp

/-- `getline` consumes a character or sets a bit. -/
theorem getline_measure (s : IStream) (h : s.fail = false) :
    s.getline.2.rest.length + (if s.getline.2.fail then 0 else 1) < s.rest.length + 1 := by
  unfold getline
  by_cases he : s.eof = true
  · simp [he]
  rw [if_neg (by simp [h, he])]
  have hlen :=
    congrArg List.length (List.takeWhile_append_dropWhile (p := (· ≠ '\n')) (l := s.rest))
  rw [List.length_append] at hlen
  rcases hd : s.rest.dropWhile (· ≠ '\n') with _ | ⟨c, rest⟩
  · rw [hd] at hlen
    dsimp only
    rcases hl : s.rest.takeWhile (· ≠ '\n') with _ | ⟨d, line⟩
    · simp
    · rw [hl] at hlen
      simp only [List.length_cons, List.length_nil] at hlen
      simp
      omega
  · rw [hd] at hlen
    simp only [List.length_cons] at hlen
    simp
    omega

end IStream
