import TcpProxy.Spec.Table

/-!
# What `Config::read` reads

The loop reads a text line by line (`readLoop_eq`), and of a line what it carries
(`readLine_carries`). A port that cannot be read is let through where the line ends with it, so that
the table is what the text says exactly as long as no port field slips (`read_says_iff`). What
`render` writes is read back (`read_render`).
-/

namespace TcpProxy

namespace Config

open IStream

section
variable {unset : Nat → UInt16} {p : UInt16} {hosts hosts' : Hosts} {line cs cs' host : List Char}
  {id : Int} {e : Entry} {n : Nat}

/-! ## One line -/

/-- What is let through in place of a port. -/
theorem port_admitted_iff : (((after cs).extractUnsigned 16).2.fail &&
    !((after cs).extractUnsigned 16).2.eof) = false ↔
      (∃ (port : UInt16) (rest : List Char), HasNumber cs port.toNat rest) ∨ Slips cs := by
  by_cases hn : ∃ v rest, HasNumber cs v rest
  · obtain ⟨v, rest, hn⟩ := hn
    rw [hasPort_iff hn, slips_of_number hn]
    rcases Nat.lt_or_ge v.natAbs (2 ^ 16) with hv | hv
    · -- stored, and negated behind a minus sign
      rw [extractUnsigned_ok hn hv]
      exact iff_of_true rfl (by omega)
    · -- the bound is stored, and the eof bit is set where the number ends the line
      rw [extractUnsigned_large hn hv]
      simp only [Bool.true_and, Bool.not_eq_false', List.isEmpty_iff]
      refine ⟨fun he => .inr (.inl ⟨he, by omega⟩), ?_⟩
      rintro (hp | ⟨he, -⟩ | hp)
      · omega
      · exact he
      · omega
  · simp only [not_exists] at hn
    obtain ⟨hf, he⟩ := extractUnsigned_none (w := 16) hn
    rw [hf, Bool.true_and, Bool.not_eq_false', he, slips_of_no_number hn]
    refine (or_iff_right ?_).symm
    rintro ⟨port, rest, hp⟩
    exact hn _ _ hp

theorem ofString_eq_after (hne : line ≠ []) : IStream.ofString line = after line := by
  rcases line with _ | ⟨c, line⟩
  · exact absurd rfl hne
  · rfl

theorem readLine_eq (p : UInt16) (hosts : Hosts) (hid : HasNumber line id cs) (hlo : INT_MIN ≤ id)
    (hhi : id ≤ INT_MAX) (hhost : HasWord cs host cs') : readLine p hosts line =
      if ((after cs').extractUnsigned 16).2.fail && !((after cs').extractUnsigned 16).2.eof then
        none
      else some (Function.update hosts id (some (host,
        (((after cs').extractUnsigned 16).1.map UInt16.ofBitVec).getD p))) := by
  have hne : line ≠ [] := by
    rintro rfl
    exact body_ne_nil hid rfl
  unfold readLine
  simp only [ofString_eq_after hne, extractInt_ok hid hlo hhi, extractString_word hhost]
  rfl

theorem fields_of_readLine (h : readLine p hosts line = some hosts') : ∃ id cs host cs',
    HasNumber line id cs ∧ INT_MIN ≤ id ∧ id ≤ INT_MAX ∧ HasWord cs host cs' := by
  have hne : line ≠ [] := by
    rintro rfl
    have hnone : readLine p hosts [] = none := rfl
    rw [hnone] at h
    cases h
  have hread := h
  unfold readLine at hread
  rw [ofString_eq_after hne] at hread
  obtain ⟨id, cs, hid, hlo, hhi⟩ : ∃ v cs, HasNumber line v cs ∧ INT_MIN ≤ v ∧ v ≤ INT_MAX := by
    refine extractInt_of_ok ?_
    by_contra hf
    simp [hf] at hread
  simp only [extractInt_ok hid hlo hhi] at hread
  obtain ⟨host, cs', hhost⟩ : ∃ host cs', HasWord cs host cs' := by
    refine extractString_of_ok ?_
    by_contra hf
    simp [hf] at hread
  exact ⟨id, cs, host, cs', hid, hlo, hhi, hhost⟩

/-- **A line that carries an entry** adds it to the table. -/
theorem readLine_carries (p : UInt16) (hosts : Hosts) (h : Carries line e) :
    readLine p hosts line = some (e.addTo hosts) := by
  obtain ⟨cs, cs', rest, hid, hhost, hport⟩ := h
  have hlt := e.port.toNat_lt
  have hval : UInt16.ofBitVec (BitVec.ofInt 16 e.port.toNat) = e.port := by
    rw [BitVec.ofInt_natCast]
    exact UInt16.ofNat_toNat
  rw [readLine_eq p hosts hid e.id_lo e.id_hi hhost, extractUnsigned_ok hport (by omega)]
  simp only [after, Bool.false_and, Bool.false_eq_true, ↓reduceIte, Option.map_some,
    Option.getD_some, hval]
  rfl

/-- **The lines that are not refused** carry an entry, or slip. -/
theorem readLine_isSome_iff :
    (readLine p hosts line).isSome ↔ (∃ e, Carries line e) ∨ SlipsLine line := by
  constructor
  · intro h
    obtain ⟨hosts', h⟩ := Option.isSome_iff_exists.1 h
    obtain ⟨id, cs, host, cs', hid, hlo, hhi, hhost⟩ := fields_of_readLine h
    rw [readLine_eq p hosts hid hlo hhi hhost] at h
    split at h
    · cases h
    · rename_i hadm
      rcases port_admitted_iff.1 (by simpa using hadm) with ⟨port, rest, hport⟩ | hs
      · exact .inl ⟨⟨id, host, port, hlo, hhi, hhost.ne_nil, hhost.not_isSpace⟩,
          cs, cs', rest, hid, hhost, hport⟩
      · exact .inr ⟨id, host, cs, cs', hid, hlo, hhi, hhost, hs⟩
  · rintro (⟨e, he⟩ | ⟨id, host, cs, cs', hid, hlo, hhi, hhost, hs⟩)
    · rw [readLine_carries p hosts he]
      rfl
    · rw [readLine_eq p hosts hid hlo hhi hhost, if_neg]
      · rfl
      · rw [port_admitted_iff.2 (.inr hs)]
        nofun

/-! ## The lines of a text -/

/-- The loop over lines, the empty ones skipped. -/
def readLines (unset : Nat → UInt16) : Nat → Hosts → List (List Char) → Option Hosts
  | _, hosts, [] => some hosts
  | n, hosts, line :: lines =>
    if line = [] then readLines unset (n + 1) hosts lines
    else (readLine (unset n) hosts line).bind fun hosts => readLines unset (n + 1) hosts lines

theorem readLoop_line {rest : List Char} (hnl : '\n' ∉ line) :
    readLoop unset n hosts (.ofString (line ++ '\n' :: rest)) =
      if line = [] then readLoop unset (n + 1) hosts (.ofString rest)
      else (readLine (unset n) hosts line).bind fun hosts =>
        readLoop unset (n + 1) hosts (.ofString rest) := by
  rw [readLoop, dif_neg (by simp [IStream.ofString])]
  simp only [IStream.getline_line hnl, List.isEmpty_iff]

theorem readLoop_lastLine (hnl : '\n' ∉ line) : readLoop unset n hosts (.ofString line) =
    if line = [] then some hosts else readLine (unset n) hosts line := by
  split
  · rename_i hne
    subst hne
    rw [readLoop, dif_neg (by decide), if_pos (by decide), readLoop, dif_pos (by decide)]
  · rename_i hne
    -- the stream is at its end, and fails at the next turn
    have hend : ∀ hosts, readLoop unset (n + 1) hosts ⟨[], false, true⟩ = some hosts :=
      fun hosts => by
        rw [readLoop, dif_neg (by decide), if_pos (by decide), readLoop, dif_pos (by decide)]
    rw [readLoop, dif_neg (by simp [IStream.ofString])]
    simp only [IStream.getline_ofLine hne hnl, List.isEmpty_iff, hne, ↓reduceIte, hend,
      Option.bind_fun_some]

theorem readLoop_eq (unset : Nat → UInt16) (n : Nat) (hosts : Hosts) (text : List Char) :
    readLoop unset n hosts (.ofString text) = readLines unset n hosts (text.splitOn '\n') := by
  by_cases hnl : '\n' ∈ text
  · obtain ⟨line, rest, he, hline⟩ := List.eq_append_cons_of_mem hnl
    -- the rest is shorter by the line and its newline
    have hlt : rest.length < text.length := by rw [he, List.length_append, List.length_cons]; omega
    rw [he, readLoop_line hline, List.splitOn_append_cons_self_of_not_mem hline, readLines]
    simp only [readLoop_eq unset (n + 1) _ rest]
  · rw [readLoop_lastLine hnl, List.splitOn_eq_singleton hnl, readLines]
    simp only [readLines, Option.bind_fun_some]
termination_by text.length

theorem read_eq (unset : Nat → UInt16) (text : List Char) :
    read unset (.ofString text) = readLines unset 0 (fun _ => none) (text.splitOn '\n') := by
  rw [read, if_neg (by simp [IStream.ofString]), readLoop_eq]

theorem read_ofLine (hne : line ≠ []) (hnl : '\n' ∉ line) :
    read unset (.ofString line) = readLine (unset 0) (fun _ => none) line := by
  rw [read_eq, List.splitOn_eq_singleton hnl, readLines, if_neg hne]
  simp only [readLines, Option.bind_fun_some]

theorem readLines_carried {lines : List (List Char)} {rows : List (List Char × Entry)}
    (hr : Carried rows) (hl : rows.map Prod.fst = lines.filter (· ≠ [])) :
    readLines unset n hosts lines = some ((rows.map Prod.snd).foldl Entry.addTo hosts) := by
  induction lines generalizing n hosts rows with
  | nil =>
    obtain rfl := List.map_eq_nil_iff.1 hl
    rfl
  | cons line lines ih =>
    unfold readLines
    by_cases hne : line = []
    · rw [if_pos hne]
      exact ih hr (by simpa [hne] using hl)
    · rw [if_neg hne]
      rw [List.filter_cons_of_pos (by simpa using hne)] at hl
      obtain ⟨row, rows, rfl, rfl, htail⟩ := List.map_eq_cons_iff.1 hl
      rw [readLine_carries _ _ (hr row List.mem_cons_self)]
      exact ih (fun r hm => hr r (List.mem_cons_of_mem row hm)) htail

theorem readLines_isSome_iff {lines : List (List Char)} : (readLines unset n hosts lines).isSome ↔
    ∀ line ∈ lines, line ≠ [] → (∃ e, Carries line e) ∨ SlipsLine line := by
  induction lines generalizing n hosts with
  | nil => simp [readLines]
  | cons line lines ih =>
    unfold readLines
    rw [List.forall_mem_cons]
    by_cases hne : line = []
    · rw [if_pos hne, ih]
      simp [hne]
    · have hline : (readLine (unset n) hosts line).isSome ↔ _ := readLine_isSome_iff
      rw [if_neg hne, ← hline]
      rcases readLine (unset n) hosts line with _ | hosts'
      · simp [hne]
      · rw [Option.bind_some, ih]
        simp

theorem read_carried {text : List Char} {rows : List (List Char × Entry)} (hr : Carried rows)
    (hl : rows.map Prod.fst = linesOf text) :
    read unset (.ofString text) = some (tableOf (rows.map Prod.snd)) := by
  rw [read_eq]
  exact readLines_carried hr hl

/-- **The texts that are accepted**: every line carries an entry, or slips. -/
theorem read_isSome_iff {text : List Char} : (read unset (.ofString text)).isSome ↔
    ∀ line ∈ linesOf text, (∃ e, Carries line e) ∨ SlipsLine line := by
  rw [read_eq, readLines_isSome_iff]
  simp only [linesOf, List.mem_filter, decide_eq_true_eq, and_imp]

/-- **An accepted table is what the text says** exactly if no line slips, or a line is refused. -/
theorem read_says_iff {text : List Char} :
    (∀ hosts, read unset (.ofString text) = some hosts → Says text hosts) ↔
      (∀ line ∈ linesOf text, ¬ SlipsLine line) ∨
        ∃ line ∈ linesOf text, ¬ SlipsLine line ∧ ∀ e, ¬ Carries line e := by
  constructor
  · intro h
    by_contra hc
    simp only [not_or, not_forall, not_exists, not_and, not_not] at hc
    obtain ⟨⟨line, hm, hs⟩, hadm⟩ := hc
    have hsome : (read unset (.ofString text)).isSome := by
      refine read_isSome_iff.2 fun l hl => ?_
      by_cases hsl : SlipsLine l
      · exact .inr hsl
      · exact .inl (hadm l hl hsl)
    obtain ⟨hosts, hread⟩ := Option.isSome_iff_exists.1 hsome
    obtain ⟨e, he⟩ := (h hosts hread).carries line hm
    exact he.not_slips hs
  · intro h hosts hread
    have hadm := read_isSome_iff.1 (Option.isSome_iff_exists.2 ⟨hosts, hread⟩)
    rcases h with h | ⟨line, hm, hs, hc⟩
    · obtain ⟨rows, hr, hl⟩ := exists_carried fun line hm =>
        (hadm line hm).resolve_right (h line hm)
      obtain rfl := Option.some.inj ((read_carried hr hl).symm.trans hread)
      exact says_tableOf hr hl
    · rcases hadm line hm with ⟨e, he⟩ | hs'
      · exact absurd he (hc e)
      · exact absurd hs' hs

/-! ## Every accepted table -/

theorem readLine_adds (h : readLine p hosts line = some hosts') : ∃ id, ∃ host : Host,
    INT_MIN ≤ id ∧ id ≤ INT_MAX ∧ host.1 ≠ [] ∧
      hosts' = Function.update hosts id (some host) := by
  obtain ⟨id, cs, host, cs', hid, hlo, hhi, hhost⟩ := fields_of_readLine h
  rw [readLine_eq p hosts hid hlo hhi hhost] at h
  split at h
  · cases h
  · exact ⟨id, _, hlo, hhi, hhost.ne_nil, (Option.some.inj h).symm⟩

/-- What a line keeps that gives an id that is an `int` a named host. -/
def Kept (P : Hosts → Prop) : Prop := ∀ hosts id (host : Host), P hosts → INT_MIN ≤ id →
  id ≤ INT_MAX → host.1 ≠ [] → P (Function.update hosts id (some host))

theorem readLoop_invariant {P : Hosts → Prop} (hP : Kept P) {is : IStream} (h0 : P hosts)
    (h : readLoop unset n hosts is = some hosts') : P hosts' := by
  induction n, hosts, is using readLoop.induct with
  | case1 n hosts is hf =>
    rw [readLoop, dif_pos hf] at h
    exact Option.some.inj h ▸ h0
  | case2 n hosts is hf line hl ih =>
    rw [readLoop, dif_neg hf, if_pos hl] at h
    exact ih h0 h
  | case3 n hosts is hf line hl ih =>
    rw [readLoop, dif_neg hf, if_neg hl] at h
    obtain ⟨hosts1, h1, h2⟩ := Option.bind_eq_some_iff.1 h
    obtain ⟨id, host, hlo, hhi, hne, rfl⟩ := readLine_adds h1
    exact ih _ (hP hosts id host h0 hlo hhi hne) h2

/-- **The invariant rule for tables**: what holds of the empty table and is kept holds of every
table that is accepted. -/
theorem read_invariant {P : Hosts → Prop} (h0 : P fun _ => none) (hP : Kept P) {is : IStream}
    (h : read unset is = some hosts) : P hosts := by
  unfold read at h
  split at h
  · cases h
  · exact readLoop_invariant hP h0 h

theorem read_entry {is : IStream} (h : read unset is = some hosts) : ∀ id host,
    hosts id = some host → INT_MIN ≤ id ∧ id ≤ INT_MAX ∧ host.1 ≠ [] := by
  refine read_invariant (P := fun hosts => ∀ id host, hosts id = some host →
    INT_MIN ≤ id ∧ id ≤ INT_MAX ∧ host.1 ≠ []) nofun ?_ h
  intro hosts id host hn hlo hhi hne k v hv
  by_cases hk : k = id
  · subst hk
    rw [Function.update_self] at hv
    obtain rfl := Option.some.inj hv
    exact ⟨hlo, hhi, hne⟩
  · rw [Function.update_of_ne hk] at hv
    exact hn k v hv

/-- **Every host of a table that is accepted is named.** -/
theorem read_named {is : IStream} (h : read unset is = some hosts) : Named hosts :=
  fun id host hh => (read_entry h id host hh).2.2

/-- **Every id of a table that is accepted is an `int`.** -/
theorem read_int {is : IStream} (h : read unset is = some hosts) (id : Int) (host : Host)
    (hh : hosts id = some host) : INT_MIN ≤ id ∧ id ≤ INT_MAX := by
  obtain ⟨hlo, hhi, -⟩ := read_entry h id host hh
  exact ⟨hlo, hhi⟩

/-! ## Reading what is written -/

theorem read_render_eq (unset : Nat → UInt16) (rows : List (Option Entry)) :
    read unset (.ofString (render rows)) = some (tableOf rows.reduceOption) := by
  have hlines : (rows.reduceOption.map fun e => (e.line, e)).map Prod.fst =
      linesOf (render rows) := by
    rw [linesOf_render, List.map_map]
    rfl
  have hrows : Carried (rows.reduceOption.map fun e => (e.line, e)) := by
    intro r hm
    obtain ⟨e, -, rfl⟩ := List.mem_map.1 hm
    exact e.line_carries
  rw [read_carried hrows hlines, List.map_map]
  simp only [Function.comp_def, List.map_id']

/-- **A table that is written is read back**: the last entry of an id is found under it, nothing
under any other id, and where no id is repeated the order of the lines does not matter. -/
theorem read_render (unset : Nat → UInt16) (rows : List (Option Entry)) :
    ∃ hosts, read unset (.ofString (render rows)) = some hosts ∧
      (∀ id, getHostById hosts id =
        (lastWith id rows.reduceOption).elim ([], 0) Entry.value) ∧
      (∀ id, (getHostById hosts id).1.isEmpty = true ↔ ∀ e ∈ rows.reduceOption, e.id ≠ id) ∧
      ∀ unset' rows', rows.reduceOption.Perm rows'.reduceOption →
        (rows.reduceOption.map Entry.id).Nodup →
          read unset' (.ofString (render rows')) = some hosts := by
  refine ⟨_, read_render_eq unset rows, fun id => ?_, fun id => ?_, fun unset' rows' hp hn => ?_⟩
  · rw [getHostById, tableOf_get]
    cases lastWith id rows.reduceOption <;> rfl
  · rw [getHostById_isEmpty (read_named (read_render_eq unset rows)), tableOf_get,
      Option.isNone_map, Option.isNone_iff_eq_none, lastWith_eq_none]
  · rw [read_render_eq, tableOf_perm hp hn]

end

/-- Two entries, with an empty line between them, and in the other order, with a newline at the
end. -/
theorem read_render_two : ∃ hosts,
    read (fun _ => 7) (.ofString ['1', ' ', 'h', ' ', '8', '0', '\n', '\n', '-', '2', ' ', '4', ' ',
      '0']) = some hosts ∧
    read (fun _ => 8) (.ofString ['-', '2', ' ', '4', ' ', '0', '\n', '1', ' ', 'h', ' ', '8', '0',
      '\n']) = some hosts ∧
    getHostById hosts (-2) = (['4'], 0) ∧ getHostById hosts 3 = ([], 0) := by
  let a : Entry := ⟨1, ['h'], 80, by decide, by decide, by decide, List.forall_mem_singleton.2 rfl⟩
  let b : Entry := ⟨-2, ['4'], 0, by decide, by decide, by decide, List.forall_mem_singleton.2 rfl⟩
  obtain ⟨hosts, hread, hget, -, hperm⟩ := read_render (fun _ => 7) [some a, none, some b]
  have hswap := hperm (fun _ => 8) [some b, some a, none] (List.Perm.swap b a []) (by decide)
  have htext : render [some a, none, some b] = ['1', ' ', 'h', ' ', '8', '0', '\n', '\n', '-', '2',
    ' ', '4', ' ', '0'] := by decide
  have htext' : render [some b, some a, none] = ['-', '2', ' ', '4', ' ', '0', '\n', '1', ' ', 'h',
    ' ', '8', '0', '\n'] := by decide
  rw [htext] at hread
  rw [htext'] at hswap
  exact ⟨hosts, hread, hswap, hget (-2), hget 3⟩

/-- A line without a port is accepted: the variable for the port is never set. -/
theorem read_unset : ∃ hosts, read (fun _ => 7) (.ofString ['1', ' ', 'h']) = some hosts ∧
    getHostById hosts 1 = (['h'], 7) ∧ ¬ Says ['1', ' ', 'h'] hosts := by
  refine ⟨_, (read_ofLine (by decide) (by decide)).trans rfl, rfl, fun h => ?_⟩
  obtain ⟨e, he⟩ := h.carries ['1', ' ', 'h'] (by decide)
  refine he.not_slips ⟨1, ['h'], [' ', 'h'], [], hasNumber_iff.2 (by decide), by decide,
    by decide, hasWord_iff.2 (by decide), .cutShort (.inl ?_)⟩
  exact fun c hc => absurd hc List.not_mem_nil

end Config

end TcpProxy
