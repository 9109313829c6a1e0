import TcpProxy.Model.Loop
import TcpProxy.Spec.Board

/-!
# How a client is dropped

The closed forms of the destructors, of `ConnectionManager::dropConnection` and of the two `close`
functions, on any state where the locks are free, the manager runs and the proxy's bufferevents
are open: the callback chains end with the proxy gone from the heap and from `_processors`, its
bufferevents freed once each, and the locks free again (`World.drop`, `World.leave`).
-/

namespace TcpProxy

open Libevent

namespace World

/-! ## Reading and writing an object -/

section
variable (w : World) (p : ProxyPtr) (px : Proxy) (m : Multimap Int ProxyPtr)

@[simp] theorem setProxy_bevs : (w.setProxy p px).bevs = w.bevs := rfl
@[simp] theorem setProxy_proxies : (w.setProxy p px).proxies = w.proxies.set p px := rfl
@[simp] theorem setProxy_cm : (w.setProxy p px).cm = w.cm := rfl
@[simp] theorem setProxy_pm : (w.setProxy p px).pm = w.pm := rfl
@[simp] theorem setProxy_log : (w.setProxy p px).log = w.log := rfl
@[simp] theorem setIdToConn_bevs : (w.setIdToConn m).bevs = w.bevs := rfl
@[simp] theorem setIdToConn_proxies : (w.setIdToConn m).proxies = w.proxies := rfl
@[simp] theorem setIdToConn_cm : (w.setIdToConn m).cm = w.cm := rfl
@[simp] theorem setIdToConn_idToConn : (w.setIdToConn m).pm.idToConn = m := rfl
@[simp] theorem setIdToConn_lock : (w.setIdToConn m).pm.lock = w.pm.lock := rfl
@[simp] theorem setIdToConn_log : (w.setIdToConn m).log = w.log := rfl

end

variable {w : World} {p : ProxyPtr} {px : Proxy} {f : Forwarder} {b : BevPtr}

theorem proxy_ok (h : w.proxies.get p = some px) : w.proxy p = .ok px := by
  simp [proxy, h]

theorem forwarder_ok (h : w.proxies.get p = some px) (hf : px.fwd = some f) :
    w.forwarder p = .ok f := by simp [forwarder, proxy_ok h, hf]

theorem processor_proxy (h : w.proxies.get p = some px) :
    w.processor (.proxy p) = .ok px.toConnectionProcessor := by simp [processor, proxy_ok h]

theorem processor_forwarder (h : w.proxies.get p = some px) (hf : px.fwd = some f) :
    w.processor (.forwarder p) = .ok f.toConnectionProcessor := by
  simp [processor, forwarder_ok h hf]

theorem setProcessor_proxy (h : w.proxies.get p = some px) (cp : ConnectionProcessor) :
    w.setProcessor (.proxy p) cp = w.setProxy p { px with toConnectionProcessor := cp } := by
  simp [setProcessor, h]

theorem setProcessor_forwarder (h : w.proxies.get p = some px) (hf : px.fwd = some f)
    (cp : ConnectionProcessor) : w.setProcessor (.forwarder p) cp =
      w.setProxy p { px with fwd := some { f with toConnectionProcessor := cp } } := by
  simp [setProcessor, setForwarder, h, hf]

theorem freeBev_ok (h : (w.bevs.get b).isSome) :
    w.freeBev b = .ok { w with bevs := w.bevs.free b } := by simp [freeBev, h]

/-! ## Closed forms -/

/-- The state after the proxy `px` at `p` has been destroyed. -/
def drop (w : World) (p : ProxyPtr) (px : Proxy) : World :=
  { w with
    bevs := (w.bevs.freeOpt (px.fwd.bind (·.bev))).freeOpt px.bev
    proxies := w.proxies.free p
    cm := { w.cm with processors := w.cm.processors.erase p } }

/-- The state after the proxy `px` at `p` has closed itself. -/
def leave (w : World) (p : ProxyPtr) (px : Proxy) : World :=
  (w.drop p px).setIdToConn (unfile w.pm.idToConn px.id)

/-- The bufferevents that the proxy `px` refers to are open and distinct. -/
structure Holds (w : World) (px : Proxy) : Prop where
  fwd : ∀ b, px.fwd.bind (·.bev) = some b → (w.bevs.get b).isSome
  bev : ∀ b, px.bev = some b → (w.bevs.get b).isSome
  ne : ∀ b, px.bev = some b → px.fwd.bind (·.bev) ≠ some b

/-- The manager can drop the proxy `p`: it runs, its lock is free, and `_processors` is a set. -/
structure CanDrop (w : World) : Prop where
  mutex : w.cm.mutex = false
  running : w.cm.running = true
  nodup : w.cm.processors.Nodup

end World

open World

variable {w : World} {p : ProxyPtr} {px : Proxy} {f : Forwarder}

/-- `~ConnectionProcessor` of a processor whose bufferevent, if it has one, is open. -/
theorem destroy_ok {cp : ConnectionProcessor} (h : ∀ b, cp.bev = some b → (w.bevs.get b).isSome) :
    cp.destroy w = .ok { w with bevs := w.bevs.freeOpt cp.bev } := by
  unfold ConnectionProcessor.destroy
  rcases hb : cp.bev with _ | b
  · rfl
  · exact freeBev_ok (h b hb)

/-- `~Proxy` frees the proxy's two bufferevents, once each, and nothing else. -/
theorem Proxy.destroy_ok (hp : w.proxies.get p = some px) (hh : w.Holds px) :
    Proxy.destroy p w = .ok
      { w with
        bevs := (w.bevs.freeOpt (px.fwd.bind (·.bev))).freeOpt px.bev
        proxies := w.proxies.free p } := by
  have hbase : ∀ b, px.bev = some b →
      ((w.bevs.freeOpt (px.fwd.bind (·.bev))).get b).isSome := fun b hb => by
    rw [Heap.get_freeOpt, if_neg (hh.ne b hb)]
    exact hh.bev b hb
  unfold Proxy.destroy
  rw [proxy_ok hp, ok_bind]
  rcases hf : px.fwd with _ | f
  · simp only [hf, Option.bind_none, Heap.freeOpt_none] at hbase ⊢
    rw [ok_bind, TcpProxy.destroy_ok hbase, ok_bind]
  · have hfb := hh.fwd
    simp only [hf, Option.bind_some] at hbase hfb ⊢
    rw [TcpProxy.destroy_ok hfb, ok_bind, TcpProxy.destroy_ok hbase, ok_bind]

/-- `addConnection` takes a proxy while the manager runs. -/
theorem ConnectionManager.addConnection_ok (hm : w.cm.mutex = false) (p : ProxyPtr) :
    ConnectionManager.addConnection p w = .ok { w with cm := { w.cm with
      processors := if w.cm.running then w.cm.processors.insert p else w.cm.processors } } := by
  rcases w with ⟨bevs, proxies, ⟨processors, mutex, running⟩, pm, log⟩
  obtain rfl : mutex = false := hm
  cases running <;> rfl

/-- `ConnectionManager::dropConnection` of a live proxy. -/
theorem ConnectionManager.dropConnection_ok (hc : w.CanDrop) (hp : w.proxies.get p = some px)
    (hh : w.Holds px) : ConnectionManager.dropConnection p w = .ok (w.drop p px) := by
  have hmem : p ∉ w.cm.processors.erase p := fun h =>
    ((List.Nodup.mem_erase_iff hc.nodup).1 h).1 rfl
  unfold ConnectionManager.dropConnection lockMutex
  simp only [hc.mutex, Bool.false_eq_true, ↓reduceIte, ok_bind, hc.running, hp, Option.isSome_some,
    release, hmem]
  rw [Proxy.destroy_ok (w := { w with cm := ⟨w.cm.processors.erase p, true, true⟩ }) hp
    ⟨hh.fwd, hh.bev, hh.ne⟩, ok_bind]
  simp [unlockMutex, World.drop, ← hc.mutex, hc.running]

/-- `ConnectionManager::dropConnection` of a proxy that is gone. -/
theorem ConnectionManager.dropConnection_gone (hm : w.cm.mutex = false)
    (hp : w.proxies.get p = none) : ConnectionManager.dropConnection p w = .ok w := by
  unfold ConnectionManager.dropConnection lockMutex
  simp only [hm, Bool.false_eq_true, ↓reduceIte, ok_bind, hp, Option.isSome_none, ite_self]
  simp [unlockMutex, ← hm]

/-- `ProxyManager::dropConnection` of a live proxy. -/
theorem ProxyManager.dropConnection_ok (hc : w.CanDrop) (hp : w.proxies.get p = some px)
    (hh : w.Holds px) : ProxyManager.dropConnection p w = .ok (w.leave p px) := by
  unfold ProxyManager.dropConnection
  simp only [hp]
  split
  · rename_i hid
    refine Eq.trans (ConnectionManager.dropConnection_ok ⟨hc.mutex, hc.running, hc.nodup⟩ hp
      ⟨hh.fwd, hh.bev, hh.ne⟩) ?_
    simp [World.leave, World.drop, unfile, hid, setIdToConn]
  · rename_i hid
    rw [ConnectionManager.dropConnection_ok hc hp hh]
    simp [World.leave, World.drop, unfile, hid, setIdToConn]

/-- **A proxy that closes itself** is dropped, and takes the entries of its id along. -/
theorem Proxy.close_ok (hc : w.CanDrop) (hp : w.proxies.get p = some px) (hh : w.Holds px)
    (hcb : px.closeCb = some p) : Proxy.close p w = .ok (w.leave p px) := by
  unfold Proxy.close
  rw [proxy_ok hp, ok_bind]
  unfold ConnectionProcessor.closeBev
  rw [processor_proxy hp, ok_bind]
  rcases hb : px.bev with _ | b
  · simp only [hcb, ok_bind]
    exact ProxyManager.dropConnection_ok hc hp hh
  · have hopen := hh.bev b hb
    have hset : { w with bevs := w.bevs.free b }.proxies.get p = some px := hp
    simp only [freeBev_ok hopen, ok_bind, hcb, setProcessor_proxy hset]
    refine Eq.trans (ProxyManager.dropConnection_ok ⟨hc.mutex, hc.running, hc.nodup⟩
      (Heap.get_set_self hp _) ?_) ?_
    · refine ⟨fun c hc => ?_, nofun, nofun⟩
      have hne : c ≠ b := fun e => hh.ne b hb (e ▸ hc)
      simp only [setProxy_bevs, Heap.get_free, if_neg hne]
      exact hh.fwd c hc
    · simp only [World.leave, World.drop, World.setProxy, setIdToConn, Heap.free_set,
        Heap.freeOpt_none, hb, Heap.freeOpt_some]
      congr 3
      rcases px.fwd.bind (·.bev) with _ | c
      · rfl
      · exact Heap.free_comm _ _ _

/-- **A forwarder that closes** takes its proxy along. -/
theorem Forwarder.close_ok (hc : w.CanDrop) (hp : w.proxies.get p = some px) (hh : w.Holds px)
    (hcb : px.closeCb = some p) (hf : px.fwd = some f) (hfcb : f.closeCb = some p) :
    Forwarder.close p w = .ok (w.leave p px) := by
  unfold Forwarder.close Proxy.onFwdClose
  rw [forwarder_ok hp hf, ok_bind]
  unfold ConnectionProcessor.closeBev
  rw [processor_forwarder hp hf, ok_bind]
  have hfwd := hh.fwd
  have hne := hh.ne
  simp only [hf, Option.bind_some] at hfwd hne
  rcases hb : f.bev with _ | b
  · simp only [hfcb, ok_bind, forwarder_ok hp hf]
    exact Proxy.close_ok hc hp hh hcb
  · have hset : { w with bevs := w.bevs.free b }.proxies.get p = some px := hp
    simp only [freeBev_ok (hfwd b hb), ok_bind, hfcb, setProcessor_forwarder hset hf]
    have hget :=
      Heap.get_set_self hp { px with fwd := some { f with bev := none, closeCb := some p } }
    refine Eq.trans (congrArg (· >>= _) (forwarder_ok hget rfl)) ?_
    rw [ok_bind]
    refine Eq.trans (Proxy.close_ok ⟨hc.mutex, hc.running, hc.nodup⟩ hget ?_ hcb) ?_
    · refine ⟨nofun, fun c hc => ?_, fun _ _ => nofun⟩
      have hcb : c ≠ b := fun e => hne c hc (e ▸ hb)
      simp only [setProxy_bevs, Heap.get_free, if_neg hcb]
      exact hh.bev c hc
    · simp only [World.leave, World.drop, World.setProxy, setIdToConn, Heap.free_set, hb, hf,
        Heap.freeOpt_none, Heap.freeOpt_some, Option.bind_some]

end TcpProxy
