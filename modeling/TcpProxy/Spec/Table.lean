import Mathlib.Data.List.Induction
import Mathlib.Data.List.Nodup
import Mathlib.Data.List.ReduceOption
import TcpProxy.Lib.Fields
import TcpProxy.Model.Config

/-!
# Tables as texts

What a text says of the backends: an `Entry` is an id, a named host and a port, a line `Carries` an
entry, `render` writes entries line by line, and the table of a list of entries (`tableOf`) has for
each id its last entry. `Slips` are the port fields that are none and still are not refused by
`Config::read`; it reads the table of a text exactly as long as none decides (`Proof/Tables.lean`).
-/

namespace TcpProxy

namespace Config

open IStream

/-- An entry of a table: the id is an `int`, the host is a word. -/
structure Entry where
  id : Int
  host : List Char
  port : UInt16
  id_lo : INT_MIN ≤ id
  id_hi : id ≤ INT_MAX
  host_ne : host ≠ []
  host_word : ∀ c ∈ host, isSpace c = false

def Entry.value (e : Entry) : Host := (e.host, e.port)

def linesOf (text : List Char) : List (List Char) := (text.splitOn '\n').filter (· ≠ [])

/-- The line has the id, the host and the port of the entry, in that order. -/
def Carries (line : List Char) (e : Entry) : Prop :=
  ∃ cs cs' rest, HasNumber line e.id cs ∧ HasWord cs e.host cs' ∧ HasNumber cs' e.port.toNat rest

/-- The port field `cs` holds no port, yet its text is cut short by the end of the line, or is a
number that does not fit and ends the line, or is a number below zero. -/
inductive Slips (cs : List Char) : Prop
  | cutShort (h : CutShort cs)
  | tooLarge {v : Int} (h : HasNumber cs v []) (hv : 65535 < v.natAbs)
  | negative {v : Int} {rest : List Char} (h : HasNumber cs v rest) (hlo : -65535 ≤ v) (hhi : v < 0)

/-- The line has an id and a host, and a port field that slips. -/
def SlipsLine (line : List Char) : Prop :=
  ∃ id host cs cs', HasNumber line id cs ∧ INT_MIN ≤ id ∧ id ≤ INT_MAX ∧ HasWord cs host cs' ∧
    Slips cs'

/-- The table in which the entry is the last. -/
def Entry.addTo (hosts : Hosts) (e : Entry) : Hosts := Function.update hosts e.id (some e.value)

/-- The table of a list of entries. -/
def tableOf (es : List Entry) : Hosts := es.foldl Entry.addTo fun _ => none

/-- The last entry of the id. -/
def lastWith (id : Int) (es : List Entry) : Option Entry := es.reverse.find? (·.id = id)

/-- The table is what the lines of the text say: each carries an entry, and the table has for each
id that of the last line with it. -/
structure Says (text : List Char) (hosts : Hosts) : Prop where
  carries : ∀ line ∈ linesOf text, ∃ e, Carries line e
  last : ∀ pre line post e, linesOf text = pre ++ line :: post → Carries line e →
    (∀ l ∈ post, ∀ e', Carries l e' → e'.id ≠ e.id) → getHostById hosts e.id = e.value
  written : ∀ id host, hosts id = some host →
    ∃ line ∈ linesOf text, ∃ e, Carries line e ∧ e.id = id ∧ e.value = host

/-- The line of an entry. -/
def Entry.line (e : Entry) : List Char :=
  decimal e.id ++ ' ' :: (e.host ++ ' ' :: decimal e.port.toNat)

/-- A text of entries, one on a line, and empty lines. -/
def render (rows : List (Option Entry)) : List Char :=
  ['\n'].intercalate (rows.map fun r => r.elim [] Entry.line)

section
variable {line text : List Char} {e e' : Entry} {es : List Entry} {id : Int}

/-! ## Lines -/

theorem Entry.eq_of {e e' : Entry} (hid : e.id = e'.id) (hh : e.host = e'.host)
    (hp : (e.port.toNat : Int) = e'.port.toNat) : e = e' := by
  have hp : e.port = e'.port := UInt16.toNat_inj.1 (Int.ofNat.inj hp)
  rcases e with ⟨id, host, port, _, _, _, _⟩
  rcases e' with ⟨id', host', port', _, _, _, _⟩
  obtain rfl : id = id' := hid
  obtain rfl : host = host' := hh
  obtain rfl : port = port' := hp
  rfl

theorem Carries.unique (h : Carries line e) (h' : Carries line e') : e = e' := by
  obtain ⟨cs, cs', rest, hi, hw, hp⟩ := h
  obtain ⟨ds, ds', rest', hi', hw', hp'⟩ := h'
  obtain ⟨hid, rfl⟩ := hi.unique hi'
  obtain ⟨hh, rfl⟩ := hw.unique hw'
  exact Entry.eq_of hid hh (hp.unique hp').1

/-! ## Port fields -/

theorem slips_of_number {cs rest : List Char} {v : Int} (h : HasNumber cs v rest) :
    Slips cs ↔ rest = [] ∧ 65535 < v.natAbs ∨ -65535 ≤ v ∧ v < 0 := by
  constructor
  · rintro (hc | ⟨hn, hv⟩ | ⟨hn, hlo, hhi⟩)
    · exact absurd h hc.no_number
    · obtain ⟨rfl, rfl⟩ := h.unique hn
      exact .inl ⟨rfl, hv⟩
    · obtain ⟨rfl, -⟩ := h.unique hn
      exact .inr ⟨hlo, hhi⟩
  · rintro (⟨rfl, hv⟩ | ⟨hlo, hhi⟩)
    · exact .tooLarge h hv
    · exact .negative h hlo hhi

theorem slips_of_no_number {cs : List Char} (h : ∀ v rest, ¬ HasNumber cs v rest) :
    Slips cs ↔ CutShort cs := by
  constructor
  · rintro (hc | ⟨hn, -⟩ | ⟨hn, -, -⟩)
    · exact hc
    · exact absurd hn (h _ _)
    · exact absurd hn (h _ _)
  · exact .cutShort

theorem not_slips {cs rest : List Char} {port : UInt16} (h : HasNumber cs port.toNat rest) :
    ¬ Slips cs := by
  have hlt := port.toNat_lt
  rw [slips_of_number h]
  omega

/-- A number is a port if it is in the range of one. -/
theorem hasPort_iff {cs rest : List Char} {v : Int} (h : HasNumber cs v rest) :
    (∃ (port : UInt16) (r : List Char), HasNumber cs port.toNat r) ↔ 0 ≤ v ∧ v ≤ 65535 := by
  constructor
  · rintro ⟨port, r, hp⟩
    have hlt := port.toNat_lt
    obtain ⟨rfl, -⟩ := h.unique hp
    omega
  · rintro ⟨h0, h1⟩
    refine ⟨UInt16.ofNat v.toNat, rest, ?_⟩
    rw [UInt16.toNat_ofNat', Nat.mod_eq_of_lt (by omega), Int.toNat_of_nonneg h0]
    exact h

theorem Carries.not_slips (h : Carries line e) : ¬ SlipsLine line := by
  obtain ⟨cs, cs', rest, hi, hw, hp⟩ := h
  rintro ⟨id, host, ds, ds', hi', -, -, hw', hs⟩
  obtain ⟨-, rfl⟩ := hi.unique hi'
  obtain ⟨-, rfl⟩ := hw.unique hw'
  exact Config.not_slips hp hs

theorem Entry.line_carries (e : Entry) : Carries e.line e := by
  have hblank : Blank [' '] := fun c hc => by rw [List.mem_singleton.1 hc]; rfl
  refine ⟨' ' :: (e.host ++ ' ' :: decimal e.port.toNat), ' ' :: decimal e.port.toNat, [],
    ⟨[], decimal e.id, rfl, nofun, decimal_spec _, ?_⟩,
    ⟨[' '], rfl, hblank, e.host_ne, e.host_word, ?_⟩,
    ⟨[' '], decimal e.port.toNat, by simp, hblank, decimal_spec _, nofun⟩⟩
  all_goals
    intro c hc
    obtain rfl := Option.some.inj hc
    rfl

/-! ## Tables -/

theorem lastWith_eq_some : lastWith id es = some e ↔
    ∃ pre post, es = pre ++ e :: post ∧ e.id = id ∧ ∀ e' ∈ post, e'.id ≠ id := by
  rw [lastWith, List.find?_eq_some_iff_append]
  constructor
  · rintro ⟨hid, pre, post, he, hpre⟩
    refine ⟨post.reverse, pre.reverse, ?_, by simpa using hid, fun e' he' => ?_⟩
    · rw [← List.reverse_reverse es, he]
      simp
    · simpa using hpre e' (List.mem_reverse.1 he')
  · rintro ⟨pre, post, rfl, hid, hpost⟩
    exact ⟨by simpa using hid, post.reverse, pre.reverse, by simp,
      fun e' he' => by simpa using hpost e' (List.mem_reverse.1 he')⟩

theorem lastWith_eq_none : lastWith id es = none ↔ ∀ e ∈ es, e.id ≠ id := by
  simp [lastWith]

/-- **The last entry wins.** -/
theorem tableOf_get (es : List Entry) (id : Int) :
    tableOf es id = (lastWith id es).map Entry.value := by
  unfold tableOf lastWith
  induction es using List.reverseRecOn with
  | nil => rfl
  | append_singleton es e ih =>
    rw [List.foldl_append, List.reverse_append]
    by_cases hid : e.id = id
    · subst hid
      simp [Entry.addTo]
    · simpa [Entry.addTo, hid, Function.update_of_ne (Ne.symm hid)] using ih

/-- Where no id is repeated, the order of the entries does not matter. -/
theorem tableOf_perm {es' : List Entry} (h : es.Perm es') (hn : (es.map Entry.id).Nodup) :
    tableOf es = tableOf es' := by
  refine h.foldl_eq' (fun a ha b hb hosts => ?_) _
  by_cases hab : a.id = b.id
  · rw [List.inj_on_of_nodup_map hn ha hb hab]
  · exact Function.update_comm hab _ _ _

/-- Lines with the entries they carry. -/
def Carried (rows : List (List Char × Entry)) : Prop := ∀ r ∈ rows, Carries r.1 r.2

theorem exists_carried {lines : List (List Char)} (h : ∀ line ∈ lines, ∃ e, Carries line e) :
    ∃ rows, Carried rows ∧ rows.map Prod.fst = lines := by
  induction lines with
  | nil => exact ⟨[], fun r hm => absurd hm List.not_mem_nil, rfl⟩
  | cons line lines ih =>
    obtain ⟨e, he⟩ := h line List.mem_cons_self
    obtain ⟨rows, hr, rfl⟩ := ih fun l hl => h l (List.mem_cons_of_mem line hl)
    refine ⟨(line, e) :: rows, fun r hm => ?_, rfl⟩
    rcases List.mem_cons.1 hm with rfl | hm
    · exact he
    · exact hr r hm

/-- **The table of what the lines of a text carry** is what the text says. -/
theorem says_tableOf {rows : List (List Char × Entry)} (hr : Carried rows)
    (hl : rows.map Prod.fst = linesOf text) : Says text (tableOf (rows.map Prod.snd)) where
  carries line hline := by
    rw [← hl] at hline
    obtain ⟨r, hm, rfl⟩ := List.mem_map.1 hline
    exact ⟨r.2, hr r hm⟩
  last pre line post e he hc hpost := by
    rw [← hl] at he
    obtain ⟨rpre, rrest, rfl, -, hrest⟩ := List.map_eq_append_iff.1 he
    obtain ⟨r, rpost, rfl, rfl, rfl⟩ := List.map_eq_cons_iff.1 hrest
    have hr2 : ∀ r' ∈ r :: rpost, Carries r'.1 r'.2 := fun r' h' =>
      hr r' (List.mem_append_right rpre h')
    obtain rfl := (hr2 r List.mem_cons_self).unique hc
    have hlast : lastWith r.2.id ((rpre ++ r :: rpost).map Prod.snd) = some r.2 := by
      refine lastWith_eq_some.2 ⟨rpre.map Prod.snd, rpost.map Prod.snd, by simp, rfl, ?_⟩
      intro e' he'
      obtain ⟨r', hm, rfl⟩ := List.mem_map.1 he'
      exact hpost r'.1 (List.mem_map_of_mem hm) r'.2 (hr2 r' (List.mem_cons_of_mem r hm))
    rw [getHostById, tableOf_get, hlast]
    rfl
  written id host hh := by
    rw [tableOf_get, Option.map_eq_some_iff] at hh
    obtain ⟨e, he, rfl⟩ := hh
    obtain ⟨pre, post, hes, rfl, -⟩ := lastWith_eq_some.1 he
    have hm : e ∈ rows.map Prod.snd := by rw [hes]; simp
    obtain ⟨r, hrow, rfl⟩ := List.mem_map.1 hm
    exact ⟨r.1, hl ▸ List.mem_map_of_mem hrow, r.2, hr r hrow, rfl, rfl⟩

/-! ## Writing tables -/

theorem Entry.newline_not_mem (e : Entry) : '\n' ∉ e.line := by
  have hword : ∀ cs : List Char, (∀ c ∈ cs, isSpace c = false) → '\n' ∉ cs := fun cs h hm =>
    absurd (h _ hm) (by decide)
  have hid := hword _ (decimal_spec e.id).not_isSpace
  have hport := hword _ (decimal_spec e.port.toNat).not_isSpace
  have hhost := hword _ e.host_word
  simp [Entry.line, hid, hport, hhost]

/-- **The lines of a text of entries** are theirs, the empty lines apart. -/
theorem linesOf_render (rows : List (Option Entry)) :
    linesOf (render rows) = rows.reduceOption.map Entry.line := by
  have hsplit : linesOf (render rows) =
      (rows.map fun r => r.elim [] Entry.line).filter (· ≠ []) := by
    cases rows with
    | nil => rfl
    | cons row rows =>
      rw [linesOf, render, List.splitOn_intercalate '\n' ?_ (by simp)]
      intro line hline
      obtain ⟨r, -, rfl⟩ := List.mem_map.1 hline
      cases r with
      | none => exact List.not_mem_nil
      | some e => exact e.newline_not_mem
  rw [hsplit]
  clear hsplit
  induction rows with
  | nil => rfl
  | cons r rows ih =>
    cases r with
    | none => simpa [List.reduceOption_cons_of_none] using ih
    | some e =>
      have hne : e.line ≠ [] := by simp [Entry.line]
      simpa [List.reduceOption_cons_of_some, hne] using ih

end

end Config

end TcpProxy
