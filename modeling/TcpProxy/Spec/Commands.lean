import TcpProxy.Lib.Runs
import TcpProxy.Model.Control
import TcpProxy.Spec.Board

/-!
# Commands

What a control message asks for (`Command`) and what a board does then (`Board.obey`). Commands
commute and are idempotent, so what a sequence of them leads to depends only on which commands it
has (`obey_eq_of_mem_iff`).
-/

namespace TcpProxy

inductive Command
  | close (k : Int)
  | closeAll
  deriving DecidableEq

/-- The command of a message; a message of another type has none. -/
def ControlMessage.command (msg : ControlMessage) : Option Command :=
  match msg.type with
  | .CLOSE => some (.close msg.id)
  | .CLOSE_ALL => some .closeAll
  | .other _ => none

namespace Board

def obey (B : Board) : Command → Board
  | .close k => B.close k
  | .closeAll => B.closeAll

variable (B : Board) (j k : Int)

theorem close_comm : (B.close j).close k = (B.close k).close j := by
  by_cases hjk : j = k
  · rw [hjk]
  · simp only [close, Multimap.values_erase_of_ne _ hjk,
      Multimap.values_erase_of_ne _ (Ne.symm hjk), ← List.foldl_append, Multimap.erase_comm _ j k]
    congr 1
    exact List.perm_append_comm.foldl_eq' (fun p _ q _ h => h.free_comm p q) _

theorem close_idem : (B.close k).close k = B.close k := by
  simp only [close, Multimap.values_erase_self, List.foldl_nil,
    Multimap.erase_of_values_nil (Multimap.values_erase_self _ k)]

theorem closeAll_close : B.closeAll.close k = B.closeAll := rfl

theorem close_closeAll : (B.close k).closeAll = B.closeAll := by
  simp only [close, closeAll, Heap.clear_foldl_free]

theorem obey_comm (B : Board) : ∀ c d, (B.obey c).obey d = (B.obey d).obey c
  | .close j, .close k => B.close_comm j k
  | .close j, .closeAll => (B.close_closeAll j).trans (B.closeAll_close j).symm
  | .closeAll, .close k => (B.closeAll_close k).trans (B.close_closeAll k).symm
  | .closeAll, .closeAll => rfl

theorem obey_idem (B : Board) : ∀ c, (B.obey c).obey c = B.obey c
  | .close k => B.close_idem k
  | .closeAll => rfl

/-- **Only which commands are obeyed matters.** -/
theorem obey_eq_of_mem_iff {cs cs' : List Command} (h : ∀ c, c ∈ cs ↔ c ∈ cs') :
    cs.foldl obey B = cs'.foldl obey B := Runs.foldl_eq_of_mem_iff obey_comm obey_idem h B

end Board

end TcpProxy
