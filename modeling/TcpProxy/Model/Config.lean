import TcpProxy.Lib.IStream
import Mathlib.Logic.Function.Basic

/-!
# The host table (`config.cpp`)

`Config::read` and `Config::getHostById`. The table is read once, before the event loop starts; the
settings of the command line are in `Model/CommandLine.lean`.
-/

namespace TcpProxy

namespace Config

/-- `Config::Host`: a host name and a port. -/
abbrev Host := List Char × UInt16

/-- `Config::Hosts`. -/
abbrev Hosts := Int → Option Host

def INT_MIN : Int := -2 ^ 31
def INT_MAX : Int := 2 ^ 31 - 1

/-- The body of `Config::read`'s loop on a line that is not empty. `unset` is what the
uninitialised variable `port` happens to hold. -/
def readLine (unset : UInt16) (hosts : Hosts) (line : List Char) : Option Hosts :=
  let is := IStream.ofString line
  let (id, is) := is.extractInt INT_MIN INT_MAX
  if is.fail then none
  else
    let (host, is) := is.extractString
    if is.fail then none
    else
      let (port, is) := is.extractUnsigned 16
      -- a port cut short by the end of the line is let through
      if is.fail && !is.eof then none
      else
        some (Function.update hosts (id.getD 0)
          (some (host.getD [], (port.map UInt16.ofBitVec).getD unset)))

/-- The loop of `Config::read`; `n` counts its turns. -/
def readLoop (unset : Nat → UInt16) (n : Nat) (hosts : Hosts) (is : IStream) : Option Hosts :=
  if h : is.fail then some hosts
  else
    let line := is.getline.1
    if line.isEmpty then readLoop unset (n + 1) hosts is.getline.2
    else (readLine (unset n) hosts line).bind fun hosts => readLoop unset (n + 1) hosts is.getline.2
termination_by is.rest.length + (if is.fail then 0 else 1)
decreasing_by
  all_goals
    have := IStream.getline_measure is (by simpa using h)
    simp only [h]
    simpa using this

/-- `Config::read` on a fresh `Config`: the table, `none` where it returns false. -/
def read (unset : Nat → UInt16) (is : IStream) : Option Hosts :=
  if is.fail then none else readLoop unset 0 (fun _ => none) is

/-- `Config::getHostById`: the empty host for an id that is not configured. -/
def getHostById (hosts : Hosts) (id : Int) : Host := (hosts id).getD ([], 0)

/-- No entry has an empty host name. -/
def Named (hosts : Hosts) : Prop := ∀ id host, hosts id = some host → host.1 ≠ []

/-- A lookup finds a named host exactly for the ids the table has. -/
theorem getHostById_isEmpty {hosts : Hosts} (hn : Named hosts) (id : Int) :
    (getHostById hosts id).1.isEmpty = (hosts id).isNone := by
  unfold getHostById
  rcases h : hosts id with _ | host
  · rfl
  · simpa using hn id host h

/-- A named host that is looked up is in the table. -/
theorem eq_getHostById {hosts : Hosts} (hn : Named hosts) {id : Int}
    (h : (getHostById hosts id).1.isEmpty = false) : hosts id = some (getHostById hosts id) := by
  rw [getHostById_isEmpty hn, Option.isNone_eq_false_iff] at h
  obtain ⟨host, hhost⟩ := Option.isSome_iff_exists.1 h
  rw [getHostById, hhost, Option.getD_some]

end Config

end TcpProxy
