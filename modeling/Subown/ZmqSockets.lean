import Subown.CStrings
import Subown.FaultDuplicates
import Subown.RunRules

/-! The sockets of `subown_zmq_adapter.c`: what `init` acquires from libzmq, the functions of
the adapter use and `close` gives back. libzmq is a parameter that answers each call from
the calls before it; a pointer is null when the answer is zero. -/
namespace Subown

open CStrings RunRules

inductive ZmqSocket where
  | pub | sub
  deriving DecidableEq, Repr

/-- The calls the adapter makes, `calloc` and `free` of its own block included. -/
inductive ZmqCall where
  | calloc
  | ctxNew
  | ctxSet (ioThreads : Int)
  | socket (s : ZmqSocket)
  | setHwm (s : ZmqSocket) (messages : Int)
  | setLinger (s : ZmqSocket)
  | bind (endpoint : CString)
  | connect (endpoint : CString)
  | subscribe
  | send (wire : Frame)
  | recv
  | close (s : ZmqSocket)
  | ctxTerm
  | free
  deriving DecidableEq, Repr

/-- Calls with their answers, the first one first. -/
abbrev ZmqLog := List (ZmqCall × Int)

abbrev Libzmq := ZmqLog → ZmqCall → Int

structure SubownZmqCfg where
  pubBindEndpoint : Option CString
  subConnectEndpoint : Option CString
  ioThreads : Int
  sndhwm : Int
  rcvhwm : Int
  deriving DecidableEq, Repr

/-- The pointers of the adapter that are not null. -/
structure SubownZmqAdapter where
  ctx : Bool
  pub : Bool
  sub : Bool
  deriving DecidableEq, Repr

structure ZmqOpened where
  status : SubownStatus
  adapter : Option SubownZmqAdapter
  log : ZmqLog

section Calls

variable (zmq : Libzmq)

def ZmqLog.call (log : ZmqLog) (c : ZmqCall) : ZmqLog := log ++ [(c, zmq log c)]

/-- A call made under a condition. -/
def ZmqLog.callIf (log : ZmqLog) (test : Prop) [Decidable test] (c : ZmqCall) : ZmqLog :=
  if test then log.call zmq c else log

def zmqAdapterClose (adapter : SubownZmqAdapter) (log : ZmqLog) : ZmqLog :=
  let log := log.callIf zmq (adapter.pub = true) (.close .pub)
  let log := log.callIf zmq (adapter.sub = true) (.close .sub)
  let log := log.callIf zmq (adapter.ctx = true) .ctxTerm
  log.call zmq .free

/-- A failed `init` with what it has acquired so far. -/
def zmqInitFailed (adapter : SubownZmqAdapter) (log : ZmqLog) : ZmqOpened :=
  ⟨.errInvalidArgument, none, zmqAdapterClose zmq adapter log⟩

/-- `init` from `zmq_bind` on. -/
def zmqAttach (pubEndpoint subEndpoint : CString) (adapter : SubownZmqAdapter) (log : ZmqLog) :
    ZmqOpened :=
  let bound := log.call zmq (.bind pubEndpoint)
  if zmq log (.bind pubEndpoint) ≠ 0 then zmqInitFailed zmq adapter bound
  else
    let connected := bound.call zmq (.connect subEndpoint)
    if zmq bound (.connect subEndpoint) ≠ 0 then zmqInitFailed zmq adapter connected
    else
      let subscribed := connected.call zmq .subscribe
      if zmq connected .subscribe ≠ 0 then zmqInitFailed zmq adapter subscribed
      else ⟨.ok, some adapter, subscribed⟩

/-- The socket options of `init`. -/
def zmqConfigure (cfg : SubownZmqCfg) (log : ZmqLog) : ZmqLog :=
  let log := log.callIf zmq (cfg.sndhwm > 0) (.setHwm .pub cfg.sndhwm)
  let log := log.callIf zmq (cfg.rcvhwm > 0) (.setHwm .sub cfg.rcvhwm)
  (log.call zmq (.setLinger .pub)).call zmq (.setLinger .sub)

/-- `init` from the new context on. -/
def zmqOpenSockets (cfg : SubownZmqCfg) (pubEndpoint subEndpoint : CString) (log : ZmqLog) :
    ZmqOpened :=
  let threaded := log.callIf zmq (cfg.ioThreads > 0) (.ctxSet cfg.ioThreads)
  let published := threaded.call zmq (.socket .pub)
  let opened := published.call zmq (.socket .sub)
  let adapter : SubownZmqAdapter :=
    ⟨true, zmq threaded (.socket .pub) ≠ 0, zmq published (.socket .sub) ≠ 0⟩
  if adapter.pub = false ∨ adapter.sub = false then zmqInitFailed zmq adapter opened
  else zmqAttach zmq pubEndpoint subEndpoint adapter (zmqConfigure zmq cfg opened)

/-- `subown_zmq_adapter_init`. -/
def zmqAdapterInit (cfg : SubownZmqCfg) (log : ZmqLog) : ZmqOpened :=
  match cfg.pubBindEndpoint, cfg.subConnectEndpoint with
  | some pubEndpoint, some subEndpoint =>
      let allocated := log.call zmq .calloc
      if zmq log .calloc = 0 then ⟨.errInvalidArgument, none, allocated⟩
      else
        let created := allocated.call zmq .ctxNew
        if zmq allocated .ctxNew = 0 then
          ⟨.errInvalidArgument, none, created.call zmq .free⟩
        else zmqOpenSockets zmq cfg pubEndpoint subEndpoint created
  | _, _ => ⟨.errInvalidArgument, none, log⟩

/-- What a program does with an open adapter. -/
inductive AdapterUse where
  | emit (update : SubownUpdate)
  | recv

def AdapterUse.log (log : ZmqLog) : AdapterUse → ZmqLog
  | .emit update =>
      (zmqEmitUpdate (fun wire log => (zmq log (.send wire), log.call zmq (.send wire)))
        update log).2
  | .recv => log.call zmq .recv

end Calls

/-- `subown_zmq_recv_update` on what `zmq_recv` finds: the buffer takes the first 72 bytes of a
message, and the code is the length of the message. -/
def zmqRecvUpdate (message : List UInt8) : Option SubownUpdate :=
  let wire := message.take (wireV1FrameSize + 32)
  let rc := min message.length 0x7FFFFFFF
  -- The decoder compares the length before it reads the buffer.
  if rc ≠ wireV1FrameSize then none else decodeUpdateV1 (wire.take rc)

/-- The buffer cuts no frame, and what it cuts is no frame. -/
theorem zmqRecvUpdate_eq (message : List UInt8) :
    zmqRecvUpdate message = decodeUpdateV1 message := by
  unfold zmqRecvUpdate
  dsimp only
  by_cases hlen : message.length = wireV1FrameSize
  · have htake : message.length ≤ wireV1FrameSize + 32 := by
      rw [hlen]
      decide
    rw [List.take_of_length_le htake, hlen, if_neg (by decide),
      List.take_of_length_le (by rw [hlen]; decide)]
  · rw [if_pos, decodeUpdateV1, if_pos hlen]
    change ¬ min message.length 0x7FFFFFFF = 40
    have hlen : message.length ≠ 40 := hlen
    omega

/-! ### What is held -/

/-- What was acquired and not given back; a call that gives back does so whatever it answers. -/
structure ZmqHeld where
  block : Bool
  ctx : Bool
  pub : Bool
  sub : Bool
  deriving DecidableEq, Repr

namespace ZmqHeld

def nothing : ZmqHeld := ⟨false, false, false, false⟩

def ofAdapter (adapter : SubownZmqAdapter) : ZmqHeld :=
  ⟨true, adapter.ctx, adapter.pub, adapter.sub⟩

def isOpen (h : ZmqHeld) : ZmqSocket → Bool
  | .pub => h.pub
  | .sub => h.sub

/-- A handle is used only while it is held, the context outlives its sockets and the block
everything it points to. -/
def Legal (h : ZmqHeld) (entry : ZmqCall × Int) : Prop :=
  match entry.1 with
  | .calloc => h = nothing
  | .ctxNew => h.block = true ∧ h.ctx = false
  | .ctxSet _ => h.ctx = true
  | .socket s => h.ctx = true ∧ h.isOpen s = false
  | .setHwm s _ => h.isOpen s = true
  | .setLinger s => h.isOpen s = true
  | .bind _ => h.pub = true
  | .connect _ => h.sub = true
  | .subscribe => h.sub = true
  | .send _ => h.pub = true
  | .recv => h.sub = true
  | .close s => h.isOpen s = true
  | .ctxTerm => h.ctx = true ∧ h.pub = false ∧ h.sub = false
  | .free => h = ⟨true, false, false, false⟩

def step (h : ZmqHeld) (entry : ZmqCall × Int) : ZmqHeld :=
  match entry.1 with
  | .calloc => { h with block := entry.2 ≠ 0 }
  | .ctxNew => { h with ctx := entry.2 ≠ 0 }
  | .socket .pub => { h with pub := entry.2 ≠ 0 }
  | .socket .sub => { h with sub := entry.2 ≠ 0 }
  | .close .pub => { h with pub := false }
  | .close .sub => { h with sub := false }
  | .ctxTerm => { h with ctx := false }
  | .free => { h with block := false }
  | _ => h

end ZmqHeld

/-- All calls are legal, and `held` is what they leave. -/
structure ZmqLog.Leaves (log : ZmqLog) (held : ZmqHeld) : Prop where
  legal : Each ZmqHeld.step ZmqHeld.Legal .nothing log
  held : exec ZmqHeld.step .nothing log = held

namespace ZmqLog.Leaves

variable {zmq : Libzmq} {log : ZmqLog} {held after : ZmqHeld} {c : ZmqCall}

theorem call (h : log.Leaves held) (zmq : Libzmq) (c : ZmqCall)
    (hlegal : held.Legal (c, zmq log c))
    (hafter : held.step (c, zmq log c) = after) : (log.call zmq c).Leaves after := by
  constructor
  · refine each_append.mpr ⟨h.legal, ?_⟩
    rw [h.held]
    exact ⟨hlegal, trivial⟩
  · rw [ZmqLog.call, exec_append, h.held]
    exact hafter

theorem callIf (h : log.Leaves held) (zmq : Libzmq) (test : Prop) [Decidable test] (c : ZmqCall)
    (hlegal : test → held.Legal (c, zmq log c))
    (hafter : (if test then held.step (c, zmq log c) else held) = after) :
    (log.callIf zmq test c).Leaves after := by
  unfold ZmqLog.callIf
  split_ifs at hafter ⊢ with htest
  · exact h.call zmq c (hlegal htest) hafter
  · exact hafter ▸ h

/-- `close` gives back what the adapter points to, the sockets first. -/
theorem close {adapter : SubownZmqAdapter} (h : log.Leaves (.ofAdapter adapter)) :
    (zmqAdapterClose zmq adapter log).Leaves .nothing := by
  obtain ⟨ctx, pub, sub⟩ := adapter
  have hpub : ZmqLog.Leaves _ ⟨true, ctx, false, sub⟩ :=
    h.callIf zmq (pub = true) (.close .pub) id (by cases pub <;> rfl)
  have hsub : ZmqLog.Leaves _ ⟨true, ctx, false, false⟩ :=
    hpub.callIf zmq (sub = true) (.close .sub) id (by cases sub <;> rfl)
  have hctx : ZmqLog.Leaves _ ⟨true, false, false, false⟩ :=
    hsub.callIf zmq (ctx = true) .ctxTerm (fun e => ⟨e, rfl, rfl⟩) (by cases ctx <;> rfl)
  exact hctx.call zmq .free rfl rfl

/-- The options change nothing that is held. -/
theorem configure {ctx : Bool} (h : log.Leaves ⟨true, ctx, true, true⟩) (cfg : SubownZmqCfg) :
    (zmqConfigure zmq cfg log).Leaves ⟨true, ctx, true, true⟩ := by
  have hsnd := h.callIf zmq (cfg.sndhwm > 0) (.setHwm .pub cfg.sndhwm) (fun _ => rfl) (ite_self _)
  have hrcv := hsnd.callIf zmq (cfg.rcvhwm > 0) (.setHwm .sub cfg.rcvhwm) (fun _ => rfl)
    (ite_self _)
  exact (hrcv.call zmq (.setLinger .pub) rfl rfl).call zmq (.setLinger .sub) rfl rfl

theorem use (h : log.Leaves ⟨true, true, true, true⟩) (u : AdapterUse) :
    (u.log zmq log).Leaves ⟨true, true, true, true⟩ := by
  cases u with
  | recv => exact h.call zmq .recv rfl rfl
  | emit update =>
      simp only [AdapterUse.log, zmqEmitUpdate, encodeUpdateV1_frameSize]
      split_ifs
      · exact h.call zmq (.send _) rfl rfl
      · exact h.call zmq (.send _) rfl rfl

theorem uses (h : log.Leaves ⟨true, true, true, true⟩) (us : List AdapterUse) :
    (us.foldl (AdapterUse.log zmq) log).Leaves ⟨true, true, true, true⟩ := by
  induction us generalizing log with
  | nil => exact h
  | cons u us ih => exact ih (h.use u)

end ZmqLog.Leaves

/-! ### Opening -/

/-- An answer that lets `init` go on. -/
def PassesCheck (entry : ZmqCall × Int) : Prop :=
  match entry.1 with
  | .calloc | .ctxNew | .socket _ => entry.2 ≠ 0
  | .bind _ | .connect _ | .subscribe => entry.2 = 0
  -- `init` ignores these answers or does not make the call.
  | .ctxSet _ | .setHwm _ _ | .setLinger _ | .send _ | .recv | .close _ | .ctxTerm | .free => True

def ZmqLog.ChecksPass (log : ZmqLog) : Prop := ∀ entry ∈ log, PassesCheck entry

/-- Everything is held, and every check passed. -/
structure OpenedAll (o : ZmqOpened) : Prop where
  status : o.status = .ok
  adapter : o.adapter = some ⟨true, true, true⟩
  held : o.log.Leaves ⟨true, true, true, true⟩
  checks : o.log.ChecksPass

/-- Nothing is held. -/
structure OpenedNothing (o : ZmqOpened) : Prop where
  status : o.status = .errInvalidArgument
  adapter : o.adapter = none
  held : o.log.Leaves .nothing

variable {zmq : Libzmq} {log : ZmqLog} {c : ZmqCall} {cfg : SubownZmqCfg}
  {adapter : SubownZmqAdapter}

theorem checksPass_call :
    (log.call zmq c).ChecksPass ↔ log.ChecksPass ∧ PassesCheck (c, zmq log c) := by
  simp [ZmqLog.ChecksPass, ZmqLog.call, or_imp, forall_and]

theorem checksPass_callIf {test : Prop} [Decidable test]
    (hc : ∀ answer, PassesCheck (c, answer)) :
    (log.callIf zmq test c).ChecksPass ↔ log.ChecksPass := by
  unfold ZmqLog.callIf
  split_ifs
  · rw [checksPass_call]
    exact and_iff_left (hc _)
  · rfl

theorem checksPass_close :
    (zmqAdapterClose zmq adapter log).ChecksPass ↔ log.ChecksPass := by
  have htrue : ∀ s, ∀ answer : Int, PassesCheck (.close s, answer) := fun _ _ => trivial
  have hterm : ∀ answer : Int, PassesCheck (.ctxTerm, answer) := fun _ => trivial
  have hfree : ∀ answer : Int, PassesCheck (.free, answer) := fun _ => trivial
  simp [zmqAdapterClose, checksPass_call, checksPass_callIf, htrue, hterm, hfree]

theorem initFailed_nothing (h : log.Leaves (.ofAdapter adapter)) :
    OpenedNothing (zmqInitFailed zmq adapter log) := ⟨rfl, rfl, h.close⟩

/-- From `zmq_bind` on a failure ends `init`. -/
theorem attach_cases (pubEndpoint subEndpoint : CString) (h : log.Leaves ⟨true, true, true, true⟩)
    (hlog : log.ChecksPass) :
    let o := zmqAttach zmq pubEndpoint subEndpoint ⟨true, true, true⟩ log
    OpenedAll o ∨ OpenedNothing o ∧ ¬ o.log.ChecksPass := by
  have failed : ∀ {c : ZmqCall} {before : ZmqLog},
      (before.call zmq c).Leaves ⟨true, true, true, true⟩ → ¬ PassesCheck (c, zmq before c) →
      OpenedNothing (zmqInitFailed zmq ⟨true, true, true⟩ (before.call zmq c)) ∧
        ¬ (zmqInitFailed zmq ⟨true, true, true⟩ (before.call zmq c)).log.ChecksPass := by
    intro c before hheld hbad
    refine ⟨initFailed_nothing hheld, fun hall => hbad ?_⟩
    exact (checksPass_call.mp (checksPass_close.mp hall)).2
  have hbound := h.call zmq (.bind pubEndpoint) rfl rfl
  have hconnected := hbound.call zmq (.connect subEndpoint) rfl rfl
  have hsubscribed := hconnected.call zmq .subscribe rfl rfl
  unfold zmqAttach
  dsimp only
  split_ifs with hbind hconnect hsubscribe
  · exact Or.inr (failed hbound hbind)
  · exact Or.inr (failed hconnected hconnect)
  · exact Or.inr (failed hsubscribed hsubscribe)
  · refine Or.inl ⟨rfl, rfl, hsubscribed, ?_⟩
    rw [checksPass_call, checksPass_call, checksPass_call]
    exact ⟨⟨⟨hlog, not_not.mp hbind⟩, not_not.mp hconnect⟩, not_not.mp hsubscribe⟩

theorem checksPass_configure :
    (zmqConfigure zmq cfg log).ChecksPass ↔ log.ChecksPass := by
  have hhwm : ∀ s n, ∀ answer : Int, PassesCheck (.setHwm s n, answer) := fun _ _ _ => trivial
  have hlinger : ∀ s, ∀ answer : Int, PassesCheck (.setLinger s, answer) := fun _ _ => trivial
  simp [zmqConfigure, checksPass_call, checksPass_callIf, hhwm, hlinger]

theorem openSockets_cases (pubEndpoint subEndpoint : CString)
    (h : log.Leaves ⟨true, true, false, false⟩) (hlog : log.ChecksPass) :
    let o := zmqOpenSockets zmq cfg pubEndpoint subEndpoint log
    OpenedAll o ∨ OpenedNothing o ∧ ¬ o.log.ChecksPass := by
  have hthreaded := h.callIf zmq (cfg.ioThreads > 0) (.ctxSet cfg.ioThreads) (fun _ => rfl)
    (ite_self _)
  have hpublished : ZmqLog.Leaves _ ⟨true, true, zmq _ (.socket .pub) ≠ 0, false⟩ :=
    hthreaded.call zmq (.socket .pub) ⟨rfl, rfl⟩ rfl
  have hopened : ZmqLog.Leaves _ ⟨true, true, _, zmq _ (.socket .sub) ≠ 0⟩ :=
    hpublished.call zmq (.socket .sub) ⟨rfl, rfl⟩ rfl
  unfold zmqOpenSockets
  dsimp only
  split_ifs with hsockets
  · refine Or.inr ⟨initFailed_nothing hopened, fun hall => ?_⟩
    obtain ⟨hpub, hsub⟩ := checksPass_call.mp (checksPass_close.mp hall)
    rcases hsockets with hnull | hnull
    · exact of_decide_eq_false hnull (checksPass_call.mp hpub).2
    · exact of_decide_eq_false hnull hsub
  · obtain ⟨hpub, hsub⟩ := not_or.mp hsockets
    rw [Bool.not_eq_false] at hpub hsub
    have hpubOpen := of_decide_eq_true hpub
    have hsubOpen := of_decide_eq_true hsub
    rw [hpub, hsub] at hopened ⊢
    refine attach_cases pubEndpoint subEndpoint (hopened.configure cfg) ?_
    rw [checksPass_configure, checksPass_call, checksPass_call,
      checksPass_callIf (c := .ctxSet cfg.ioThreads) (fun _ => trivial)]
    exact ⟨⟨hlog, hpubOpen⟩, hsubOpen⟩

theorem init_cases (zmq : Libzmq) {pubEndpoint subEndpoint : CString}
    (hpub : cfg.pubBindEndpoint = some pubEndpoint)
    (hsub : cfg.subConnectEndpoint = some subEndpoint) :
    let o := zmqAdapterInit zmq cfg []
    OpenedAll o ∨ OpenedNothing o ∧ ¬ o.log.ChecksPass := by
  have hnil : ZmqLog.Leaves [] .nothing := ⟨trivial, rfl⟩
  unfold zmqAdapterInit
  rw [hpub, hsub]
  dsimp only
  split_ifs with hblock hctx
  · refine Or.inr ⟨⟨rfl, rfl, hnil.call zmq .calloc rfl ?_⟩, fun hall =>
      (checksPass_call.mp hall).2 hblock⟩
    simp [ZmqHeld.step, ZmqHeld.nothing, hblock]
  all_goals
    have hallocated : ZmqLog.Leaves _ ⟨true, false, false, false⟩ :=
      hnil.call zmq .calloc rfl (by simp [ZmqHeld.step, ZmqHeld.nothing, hblock])
  · have hcreated : ZmqLog.Leaves _ ⟨true, false, false, false⟩ :=
      hallocated.call zmq .ctxNew ⟨rfl, rfl⟩ (by simp [ZmqHeld.step, hctx])
    refine Or.inr ⟨⟨rfl, rfl, hcreated.call zmq .free rfl rfl⟩, fun hall => ?_⟩
    exact (checksPass_call.mp (checksPass_call.mp hall).1).2 hctx
  · have hcreated : ZmqLog.Leaves _ ⟨true, true, false, false⟩ :=
      hallocated.call zmq .ctxNew ⟨rfl, rfl⟩ (by simp [ZmqHeld.step, hctx])
    refine openSockets_cases pubEndpoint subEndpoint hcreated ?_
    rw [checksPass_call, checksPass_call]
    exact ⟨⟨nofun, hblock⟩, hctx⟩

theorem init_missing (h : cfg.pubBindEndpoint = none ∨ cfg.subConnectEndpoint = none) :
    OpenedNothing (zmqAdapterInit zmq cfg []) := by
  have hinit : zmqAdapterInit zmq cfg [] = ⟨.errInvalidArgument, none, []⟩ := by
    unfold zmqAdapterInit
    rcases h with hnull | hnull
    · rw [hnull]
    · rw [hnull]
      cases cfg.pubBindEndpoint <;> rfl
  rw [hinit]
  exact ⟨rfl, rfl, trivial, rfl⟩

end Subown
