import TcpProxy.Lib.Getopt
import TcpProxy.Model.Config

/-!
# The command line (`config.cpp`, `main.cpp`)

`Config::parseCmdLine` and the settings it fills, and what `main` makes of the verbosity. `getopt`
is GNU's, without `POSIXLY_CORRECT` in the environment. The usage text of `-h` is not modelled.
-/

namespace TcpProxy

open Getopt

/-- The type of the log priorities that `toPriority` maps to. -/
inductive Priority
  | ERROR
  | WARN
  | INFO
  | DEBUG
  deriving DecidableEq, Repr

/-- `toPriority`; `none` where it reads outside its array. -/
def toPriority (l : Int) : Option Priority :=
  let l := if 3 < l then 3 else l
  if l < 0 then none else [Priority.ERROR, .WARN, .INFO, .DEBUG][l.toNat]?

namespace Config

def LONG_MIN : Int := -2 ^ 63
def LONG_MAX : Int := 2 ^ 63 - 1

/-- `std::atoi`, as glibc has it: `strtol`, which stores the nearest bound of `long` where the
number is out of range, cut to an `int`. -/
def atoi (cs : List Char) : Int :=
  let n := (IStream.scanNumeral (cs.dropWhile IStream.isSpace)).val
  (BitVec.ofInt 32 (max LONG_MIN (min LONG_MAX n))).toInt

/-- The members of `Config` that the command line sets. -/
@[ext]
structure Settings where
  verbosity : Int
  cfgFile : List Char
  logFile : List Char
  useSyslog : Bool
  useConsole : Bool
  port : UInt16
  rmqStr : List Char
  rmqQueueName : List Char
  deriving DecidableEq

/-- `Config::Config`. -/
def Settings.new : Settings where
  verbosity := 0
  cfgFile := "config.cfg".toList
  logFile := []
  useSyslog := false
  useConsole := false
  port := 12345
  rmqStr := "amqp://localhost/".toList
  rmqQueueName := "proxyCtl".toList

/-- `"v:c:l:p:r:q:soh"`. -/
def optstring : Getopt.Spec
  | 'v' => some true
  | 'c' => some true
  | 'l' => some true
  | 'p' => some true
  | 'r' => some true
  | 'q' => some true
  | 's' => some false
  | 'o' => some false
  | 'h' => some false
  | _ => none

/-- The `switch` of `parseCmdLine`; `none` where it returns false. -/
def Settings.set (cfg : Settings) : Item → Option Settings
  | .opt 'v' (some optarg) => some { cfg with verbosity := atoi optarg }
  | .opt 'c' (some optarg) => some { cfg with cfgFile := optarg }
  | .opt 'l' (some optarg) => some { cfg with logFile := optarg }
  | .opt 'p' (some optarg) =>
    some { cfg with port := .ofBitVec (BitVec.ofInt 16 (atoi optarg)) }
  | .opt 'r' (some optarg) => some { cfg with rmqStr := optarg }
  | .opt 'q' (some optarg) => some { cfg with rmqQueueName := optarg }
  | .opt 's' none => some { cfg with useSyslog := true }
  | .opt 'o' none => some { cfg with useConsole := true }
  | _ => none

/-- The loop of `parseCmdLine`. -/
def parseLoop (cfg : Settings) (s : Scan) : Option Settings :=
  match _h : getopt optstring s with
  | none => some cfg
  | some (c, s') => (cfg.set c).bind fun cfg => parseLoop cfg s'
termination_by s.size
decreasing_by exact getopt_size ‹_›

/-- `Config::parseCmdLine` on a fresh `Config`: the settings, `none` where it returns false. -/
def parseCmdLine (argv : List Arg) : Option Settings := parseLoop .new ⟨[], argv.drop 1⟩

end Config

end TcpProxy
