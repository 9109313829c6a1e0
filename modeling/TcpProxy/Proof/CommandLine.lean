import TcpProxy.Lib.Fields
import TcpProxy.Lib.Word32
import TcpProxy.Model.CommandLine
import Mathlib.Data.List.Induction

/-!
# The settings of a command line

`parseCmdLine` accepts exactly the well-formed command lines without `-h`, and each setting is the
last one written, or its default (`parseCmdLine_iff`).
-/

namespace TcpProxy

open Getopt

namespace Config

/-- The argument of the last option `c`. -/
def lastArg (c : Char) (is : List Item) : Option Arg :=
  (is.filterMap fun
    | .opt d arg => if d = c then arg else none
    | .bad => none).getLast?

/-- What the options `is` set. -/
def settingsOf (is : List Item) : Settings where
  verbosity := (lastArg 'v' is).elim Settings.new.verbosity atoi
  cfgFile := (lastArg 'c' is).getD Settings.new.cfgFile
  logFile := (lastArg 'l' is).getD Settings.new.logFile
  useSyslog := .opt 's' none ∈ is
  useConsole := .opt 'o' none ∈ is
  port := (lastArg 'p' is).elim Settings.new.port fun arg =>
    .ofBitVec (BitVec.ofInt 16 (atoi arg))
  rmqStr := (lastArg 'r' is).getD Settings.new.rmqStr
  rmqQueueName := (lastArg 'q' is).getD Settings.new.rmqQueueName

theorem parseLoop_eq (cfg : Settings) (s : Scan) :
    parseLoop cfg s = (items optstring s).foldlM Settings.set cfg := by
  fun_induction parseLoop cfg s with
  | case1 cfg s h => rw [items_of_none h]; rfl
  | case2 cfg s i s' h ih =>
    rw [items_of_some h, List.foldlM_cons]
    rcases hset : cfg.set i with _ | cfg'
    · rfl
    · exact ih cfg'

theorem optstring_arg {c : Char} (h : optstring c = some true) :
    c = 'v' ∨ c = 'c' ∨ c = 'l' ∨ c = 'p' ∨ c = 'r' ∨ c = 'q' := by
  unfold optstring at h
  split at h <;> simp_all

theorem optstring_flag {c : Char} (h : optstring c = some false) :
    c = 's' ∨ c = 'o' ∨ c = 'h' := by
  unfold optstring at h
  split at h <;> simp_all

section
variable {is : List Item}

theorem lastArg_arg (c d : Char) (arg : Arg) :
    lastArg c (is ++ [.opt d (some arg)]) = if d = c then some arg else lastArg c is := by
  rw [lastArg, List.filterMap_append]
  split
  · rename_i e
    simp [e]
  · rename_i e
    simp [e, lastArg]

theorem lastArg_flag (c d : Char) : lastArg c (is ++ [.opt d none]) = lastArg c is := by
  rw [lastArg, List.filterMap_append]
  simp [lastArg]

theorem set_settingsOf {i : Item} (hi : (∃ c, i = .opt c none ∧ optstring c = some false) ∨
    ∃ c arg, i = .opt c (some arg) ∧ optstring c = some true) (hh : i ≠ .opt 'h' none) :
    (settingsOf is).set i = some (settingsOf (is ++ [i])) := by
  rcases hi with ⟨c, rfl, hc⟩ | ⟨c, arg, rfl, hc⟩
  · rcases optstring_flag hc with rfl | rfl | rfl
    · simp [Settings.set, settingsOf, lastArg_flag]
    · simp [Settings.set, settingsOf, lastArg_flag]
    · exact absurd rfl hh
  · rcases optstring_arg hc with rfl | rfl | rfl | rfl | rfl | rfl <;>
      simp [Settings.set, settingsOf, lastArg_arg]

theorem foldlM_bad {cfg : Settings} (hb : .bad ∈ is) : is.foldlM Settings.set cfg = none := by
  induction is generalizing cfg with
  | nil => cases hb
  | cons i is ih =>
    rw [List.foldlM_cons]
    rcases List.mem_cons.1 hb with rfl | hb
    · rfl
    · rcases hset : cfg.set i with _ | cfg'
      · rfl
      · exact ih hb

theorem foldlM_set (hi : ∀ i ∈ is, (∃ c, i = .opt c none ∧ optstring c = some false) ∨
    ∃ c arg, i = .opt c (some arg) ∧ optstring c = some true) :
    is.foldlM Settings.set .new = if .opt 'h' none ∈ is then none else some (settingsOf is) := by
  induction is using List.reverseRecOn with
  | nil => rfl
  | append_singleton is i ih =>
    rw [List.foldlM_append, ih fun j hj => hi j (List.mem_append_left _ hj)]
    by_cases hh : .opt 'h' none ∈ is
    · rw [if_pos hh, if_pos (List.mem_append_left _ hh)]
      rfl
    · rw [if_neg hh]
      by_cases he : i = .opt 'h' none
      · subst he
        rw [if_pos (List.mem_append_right _ List.mem_cons_self)]
        rfl
      · have hnot : Item.opt 'h' none ∉ is ++ [i] := by
          simp [hh, Ne.symm he]
        rw [if_neg hnot, ← set_settingsOf (hi i (by simp)) he]
        simp

theorem parse_of_writes {argv : List Arg} (hw : Writes optstring (argv.drop 1) is)
    (hh : .opt 'h' none ∉ is) : parseCmdLine argv = some (settingsOf is) := by
  obtain ⟨heq, -⟩ := (items_iff rfl).1 hw
  rw [parseCmdLine, parseLoop_eq, heq, foldlM_set hw.typed, if_neg hh]

theorem writes_of_parse {argv : List Arg} {cfg : Settings} (h : parseCmdLine argv = some cfg) :
    ∃ is, Writes optstring (argv.drop 1) is ∧ .opt 'h' none ∉ is ∧ cfg = settingsOf is := by
  rw [parseCmdLine, parseLoop_eq] at h
  have hb : Item.bad ∉ items optstring ⟨[], argv.drop 1⟩ := fun hb => by
    rw [foldlM_bad hb] at h
    cases h
  have hw := (items_iff rfl).2 ⟨rfl, hb⟩
  refine ⟨_, hw, ?_⟩
  rw [foldlM_set hw.typed] at h
  split at h
  · cases h
  · exact ⟨‹_›, (Option.some.inj h).symm⟩

end

/-- **What a command line means**: `parseCmdLine` accepts exactly the well-formed command lines
that do not ask for help, and each setting is the last one written or its default. With
`POSIXLY_CORRECT` set, `getopt` would stop at the first operand instead of passing over it. -/
theorem parseCmdLine_iff {argv : List Arg} {cfg : Settings} :
    parseCmdLine argv = some cfg ↔
      ∃ is, Writes optstring (argv.drop 1) is ∧ .opt 'h' none ∉ is ∧ cfg = settingsOf is := by
  refine ⟨writes_of_parse, fun ⟨is, hw, hh, hcfg⟩ => ?_⟩
  subst hcfg
  exact parse_of_writes hw hh

/-! ## Writing a command line -/

/-- A number is cut to an `int`. -/
theorem atoi_number {cs rest : List Char} {v : Int} (h : IStream.HasNumber cs v rest)
    (hlo : LONG_MIN ≤ v) (hhi : v ≤ LONG_MAX) : atoi cs = (BitVec.ofInt 32 v).toInt := by
  have hv : max LONG_MIN (min LONG_MAX v) = v := by omega
  rw [atoi, (IStream.hasNumber_iff.1 h).2.1, hv]

theorem atoi_decimal {v : Int} (hlo : INT_MIN ≤ v) (hhi : v ≤ INT_MAX) :
    atoi (IStream.decimal v) = v := by
  have h : IStream.HasNumber (IStream.decimal v) v [] :=
    ⟨[], _, by simp, nofun, IStream.decimal_spec v, nofun⟩
  simp only [INT_MIN, INT_MAX] at hlo hhi
  rw [atoi_number h (by simp only [LONG_MIN]; omega) (by simp only [LONG_MAX]; omega),
    Word32.toInt_ofInt hlo (by omega)]

/-- A port is cut to 16 bits, whatever number is written. -/
theorem port_mod {cs rest : List Char} {v : Int} (h : IStream.HasNumber cs v rest)
    (hlo : LONG_MIN ≤ v) (hhi : v ≤ LONG_MAX) :
    UInt16.ofBitVec (BitVec.ofInt 16 (atoi cs)) = .ofBitVec (BitVec.ofInt 16 v) := by
  have hcut : (BitVec.ofInt 32 v).toInt % 65536 = v % 65536 := by
    rw [BitVec.toInt_ofInt, Int.bmod_def]
    split <;> omega
  rw [atoi_number h hlo hhi]
  congr 1
  apply BitVec.eq_of_toNat_eq
  rw [BitVec.toNat_ofInt, BitVec.toNat_ofInt]
  exact congrArg Int.toNat hcut

theorem port_decimal (p : UInt16) :
    UInt16.ofBitVec (BitVec.ofInt 16 (atoi (IStream.decimal p.toNat))) = p := by
  have hp : p.toNat < 65536 := p.toNat_lt
  have h : IStream.HasNumber (IStream.decimal p.toNat) p.toNat [] :=
    ⟨[], _, by simp, nofun, IStream.decimal_spec p.toNat, nofun⟩
  rw [port_mod h (by simp only [LONG_MIN]; omega) (by simp only [LONG_MAX]; omega)]
  apply UInt16.toNat_inj.1
  rw [UInt16.toNat_ofBitVec, BitVec.toNat_ofInt]
  omega

/-- The options that write every setting. -/
def Settings.options (cfg : Settings) : List Item :=
  [.opt 'v' (some (IStream.decimal cfg.verbosity)), .opt 'c' (some cfg.cfgFile),
    .opt 'l' (some cfg.logFile), .opt 'p' (some (IStream.decimal cfg.port.toNat)),
    .opt 'r' (some cfg.rmqStr), .opt 'q' (some cfg.rmqQueueName)] ++
    ((if cfg.useSyslog then [.opt 's' none] else []) ++
      if cfg.useConsole then [.opt 'o' none] else [])

theorem settingsOf_options {cfg : Settings} (hlo : INT_MIN ≤ cfg.verbosity)
    (hhi : cfg.verbosity ≤ INT_MAX) : settingsOf cfg.options = cfg := by
  obtain ⟨verbosity, cfgFile, logFile, useSyslog, useConsole, port, rmqStr, rmqQueueName⟩ := cfg
  have hv : atoi (IStream.decimal verbosity) = verbosity := atoi_decimal hlo hhi
  have hp := port_decimal port
  cases useSyslog <;> cases useConsole <;>
    simp [settingsOf, lastArg, Settings.options, hv, hp]

/-- However the options of `cfg` are grouped, they are read as `cfg`. -/
theorem parse_options {argv : List Arg} {cfg : Settings} (hlo : INT_MIN ≤ cfg.verbosity)
    (hhi : cfg.verbosity ≤ INT_MAX) (hw : Writes optstring (argv.drop 1) cfg.options) :
    parseCmdLine argv = some cfg := by
  have hh : Item.opt 'h' none ∉ cfg.options := by
    simp [Settings.options]
  rw [parse_of_writes hw hh, settingsOf_options hlo hhi]

/-- A command line with every setting. -/
def Settings.render (prog : Arg) (cfg : Settings) : List Arg :=
  [prog, "-v".toList, IStream.decimal cfg.verbosity, "-c".toList, cfg.cfgFile,
    "-l".toList, cfg.logFile, "-p".toList, IStream.decimal cfg.port.toNat,
    "-r".toList, cfg.rmqStr, "-q".toList, cfg.rmqQueueName] ++
    ((if cfg.useSyslog then ["-s".toList] else []) ++
      if cfg.useConsole then ["-o".toList] else [])

theorem Settings.writes_render (prog : Arg) (cfg : Settings) :
    Writes optstring ((cfg.render prog).drop 1) cfg.options := by
  obtain ⟨verbosity, cfgFile, logFile, useSyslog, useConsole, port, rmqStr, rmqQueueName⟩ := cfg
  refine .value rfl (.value rfl (.value rfl (.value rfl (.value rfl (.value rfl ?_)))))
  cases useSyslog <;> cases useConsole
  · exact .nil
  · exact .flag rfl .nil
  · exact .flag rfl .nil
  · exact .flag rfl (.flag rfl .nil)

/-- **A command line can say every setting**: file names, port, address and queue name of any
content that an argument can have (an argument is a C string and holds no NUL) are read back as they
were written. -/
theorem parse_render (prog : Arg) (cfg : Settings) (hlo : INT_MIN ≤ cfg.verbosity)
    (hhi : cfg.verbosity ≤ INT_MAX) : parseCmdLine (cfg.render prog) = some cfg :=
  parse_options hlo hhi (cfg.writes_render prog)

/-- No setting is the default one. -/
theorem parse_render_other :
    let cfg : Settings :=
      { verbosity := -3
        cfgFile := "my hosts.cfg".toList
        logFile := "-v".toList
        useSyslog := true
        useConsole := true
        port := 65535
        rmqStr := "amqps://u:p@broker:5672/ctl".toList
        rmqQueueName := "queue".toList }
    parseCmdLine (cfg.render "testtask".toList) = some cfg :=
  parse_render _ _ (by decide) (by decide)

end Config

end TcpProxy
