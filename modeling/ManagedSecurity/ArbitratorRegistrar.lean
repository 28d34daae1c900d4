import ManagedSecurity.Lib.Transition
import Mathlib.Logic.Function.Basic
import Mathlib.Tactic

/-! # The tunnels of the gateway (`ArbitratorRegistrar`)

Agents register at the gateway through web sockets. Every connection has a handler
of its own, and the handlers share the dictionary of the registrar; a step is one
access of a handler to the dictionary or to a socket, so that the runs are all
interleavings of the handlers.

`AddOrUpdate` is not one step: its update function, which closes the tunnel that is
superseded, runs before the entry is replaced, and runs again when the entry has
changed in the meantime.

A handler that ends removes the entry of its agent, whoever put it there. The most
recent socket of an agent is found exactly as long as no superseded handler does
that (`NoStaleRemoval`, `reconnected_reachable`).
-/

namespace ManagedSecurity

open Transition

/-- `WebSocketState`, as far as accepted sockets are concerned. -/
inductive WebSocketState where
  | open
  | closeSent
  | closeReceived
  | closed
  | aborted
deriving DecidableEq, Repr

/-- Where the handler of a connection stands: in `RegisterTunnel`, before and behind
the update function, in the receive loop, behind it, behind `RemoveTunnel`, at its
end, or gone with an exception of `ReceiveAsync`. -/
inductive HandlerPhase where
  | registering
  | superseding (oldTunnel : ℕ)
  | receiving
  | closeObserved
  | tunnelRemoved
  | finished
  | faulted
deriving DecidableEq, Repr

/-- A connection: the agent it registers, its socket and its handler. -/
structure Connection where
  agentId : String
  socket : WebSocketState
  handler : HandlerPhase
deriving DecidableEq, Repr

/-- The connections by number, the dictionary `_tunnels`, and the connection that
was registered last for each agent. -/
structure Gateway where
  connections : ℕ → Option Connection
  tunnels : String → Option ℕ
  latest : String → Option ℕ

namespace Gateway

/-- No connection yet. -/
def initial : Gateway := ⟨fun _ => none, fun _ => none, fun _ => none⟩

/-- `TryGetTunnel`. -/
def tryGetTunnel (s : Gateway) (agentId : String) : Option ℕ := s.tunnels agentId

/-- A connection is changed. -/
def modifyConnection (s : Gateway) (k : ℕ) (f : Connection → Connection) : Gateway :=
  { s with connections := Function.update s.connections k ((s.connections k).map f) }

/-- A handler goes on. -/
def setHandler (s : Gateway) (k : ℕ) (phase : HandlerPhase) : Gateway :=
  s.modifyConnection k fun c => { c with handler := phase }

/-- The entry of an agent is set. -/
def setTunnel (s : Gateway) (agentId : String) (k : ℕ) : Gateway :=
  { s with
    tunnels := Function.update s.tunnels agentId (some k)
    latest := Function.update s.latest agentId (some k) }

/-- `RemoveTunnel`. -/
def removeTunnel (s : Gateway) (agentId : String) : Gateway :=
  { s with tunnels := Function.update s.tunnels agentId none }

/-- The update function of `RegisterTunnel`: an open tunnel is closed. -/
def closeSuperseded (s : Gateway) (oldTunnel : ℕ) : Gateway :=
  s.modifyConnection oldTunnel fun c =>
    if c.socket = .open then { c with socket := .closeSent } else c

/-- The socket after a close frame has arrived. -/
def closeFrame : WebSocketState → WebSocketState
  | .open => .closeReceived
  | .closeSent => .closed
  | socket => socket

/-- What happens at the gateway. -/
inductive Event where
  /-- A connection is accepted. -/
  | accept (k : ℕ) (agentId : String)
  /-- `AddOrUpdate` finds no entry, and adds one. -/
  | addTunnel (k : ℕ)
  /-- `AddOrUpdate` finds an entry, and runs the update function. -/
  | supersede (k : ℕ)
  /-- `AddOrUpdate` replaces the entry if it is still the same, and tries again
  otherwise. -/
  | updateTunnel (k : ℕ)
  /-- The receive loop ends with a close frame. -/
  | observeClose (k : ℕ)
  /-- The connection is lost; `ReceiveAsync` throws, and so does the handler. -/
  | connectionLost (k : ℕ)
  /-- `RemoveTunnel`, behind the receive loop. -/
  | removeTunnel (k : ℕ)
  /-- `CloseAsync`, at the end of the handler. -/
  | closeSocket (k : ℕ)
deriving DecidableEq, Repr

/-- What the handler of the connection `k`, which is `c`, makes of an event. -/
def handle (s : Gateway) (k : ℕ) (c : Connection) : Event → Option Gateway
  | .accept _ _ => none
  | .addTunnel _ =>
    if c.handler = .registering ∧ s.tunnels c.agentId = none then
      some ((s.setHandler k .receiving).setTunnel c.agentId k)
    else none
  | .supersede _ =>
    match s.tunnels c.agentId with
    | some old =>
      if c.handler = .registering then
        some ((s.closeSuperseded old).setHandler k (.superseding old))
      else none
    | none => none
  | .updateTunnel _ =>
    match c.handler with
    | .superseding old =>
      if s.tunnels c.agentId = some old then
        some ((s.setHandler k .receiving).setTunnel c.agentId k)
      else some (s.setHandler k .registering)
    | _ => none
  | .observeClose _ =>
    if c.handler = .receiving then
      some (s.modifyConnection k fun c =>
        { c with socket := closeFrame c.socket, handler := .closeObserved })
    else none
  | .connectionLost _ =>
    if c.handler = .receiving then
      some (s.modifyConnection k fun c => { c with socket := .aborted, handler := .faulted })
    else none
  | .removeTunnel _ =>
    if c.handler = .closeObserved then
      some ((s.setHandler k .tunnelRemoved).removeTunnel c.agentId)
    else none
  | .closeSocket _ =>
    if c.handler = .tunnelRemoved then
      some (s.modifyConnection k fun c => { c with socket := .closed, handler := .finished })
    else none

/-- The connection an event belongs to. -/
def Event.connection : Event → ℕ
  | .accept k _ => k
  | .addTunnel k => k
  | .supersede k => k
  | .updateTunnel k => k
  | .observeClose k => k
  | .connectionLost k => k
  | .removeTunnel k => k
  | .closeSocket k => k

/-- One step. -/
def step (s : Gateway) (event : Event) : Option Gateway :=
  match s.connections event.connection with
  | some c => s.handle event.connection c event
  | none =>
    match event with
    | .accept k agentId =>
      some { s with
        connections := Function.update s.connections k (some ⟨agentId, .open, .registering⟩) }
    | _ => none

/-! ## The most recent socket is found -/

/-- The socket is open, and its handler has not observed a close. -/
def Live (c : Connection) : Prop := c.socket = .open ∧ c.handler = .receiving

instance (c : Connection) : Decidable (Live c) := inferInstanceAs (Decidable (_ ∧ _))

/-- The most recently registered socket of an agent is the one that is found, as
long as it is open and its handler has not observed a close. -/
def LatestFound (s : Gateway) : Prop :=
  ∀ agentId k c, s.latest agentId = some k → s.connections k = some c → Live c →
    s.tryGetTunnel agentId = some k

/-- A handler that calls `RemoveTunnel` is the one of the most recently registered
socket of its agent, or that socket is closed or known to be closed. -/
def NoStaleRemoval (s : Gateway) : Event → Prop
  | .removeTunnel k => ∀ c, s.connections k = some c → ∀ j d, s.latest c.agentId = some j →
      s.connections j = some d → Live d → j = k
  | _ => True

/-- What is kept besides: a socket is registered for its own agent. -/
structure Inv (s : Gateway) : Prop where
  owner : ∀ agentId k, s.latest agentId = some k →
    ∃ c, s.connections k = some c ∧ c.agentId = agentId
  found : s.LatestFound

section

variable {s t : Gateway} {k : ℕ} {c : Connection} {f : Connection → Connection}

/-- A connection that is changed keeps its agent and does not come to life. -/
theorem Inv.modify (hs : s.Inv) (hagent : ∀ c, (f c).agentId = c.agentId)
    (hlive : ∀ c, s.connections k = some c → Live (f c) → Live c) : (s.modifyConnection k f).Inv := by
  constructor
  · intro agentId j hlatest
    rcases hs.owner agentId j hlatest with ⟨d, hd, howner⟩
    by_cases hj : j = k
    · subst hj
      refine ⟨f d, ?_, (hagent d).trans howner⟩
      show Function.update s.connections j ((s.connections j).map f) j = some (f d)
      rw [Function.update_self, hd]
      rfl
    · refine ⟨d, ?_, howner⟩
      show Function.update s.connections k _ j = some d
      rw [Function.update_of_ne hj]
      exact hd
  · intro agentId j d hlatest hconn hd
    replace hconn : Function.update s.connections k ((s.connections k).map f) j = some d := hconn
    by_cases hj : j = k
    · subst hj
      rw [Function.update_self] at hconn
      rcases Option.map_eq_some_iff.mp hconn with ⟨c, hc, rfl⟩
      exact hs.found agentId j c hlatest hc (hlive c hc hd)
    · rw [Function.update_of_ne hj] at hconn
      exact hs.found agentId j d hlatest hconn hd

theorem Inv.setHandler (hs : s.Inv) {phase : HandlerPhase} (hphase : phase ≠ .receiving) :
    (s.setHandler k phase).Inv :=
  hs.modify (fun _ => rfl) (fun _ _ h => absurd h.2 hphase)

/-- The entry of an agent is set to a connection of this agent. -/
theorem Inv.register (hs : s.Inv) (hc : s.connections k = some c) :
    ((s.setHandler k .receiving).setTunnel c.agentId k).Inv := by
  have hk : (s.setHandler k .receiving).connections k = some { c with handler := .receiving } := by
    show Function.update s.connections k _ k = _
    rw [Function.update_self, hc]
    rfl
  have hother : ∀ j, j ≠ k → (s.setHandler k .receiving).connections j = s.connections j :=
    fun j hj => Function.update_of_ne hj _ _
  -- the latest connection of another agent is another connection
  have hdiffers : ∀ agentId j, agentId ≠ c.agentId → s.latest agentId = some j → j ≠ k := by
    rintro agentId j hagent hlatest rfl
    rcases hs.owner agentId j hlatest with ⟨d, hd, howner⟩
    rw [hc] at hd
    obtain rfl := Option.some.inj hd
    exact hagent howner.symm
  constructor
  · intro agentId j hlatest
    replace hlatest : Function.update s.latest c.agentId (some k) agentId = some j := hlatest
    by_cases hagent : agentId = c.agentId
    · rw [hagent, Function.update_self] at hlatest
      obtain rfl := Option.some.inj hlatest
      exact ⟨_, hk, hagent.symm⟩
    · rw [Function.update_of_ne hagent] at hlatest
      rcases hs.owner agentId j hlatest with ⟨d, hd, howner⟩
      exact ⟨d, (hother j (hdiffers agentId j hagent hlatest)).trans hd, howner⟩
  · intro agentId j d hlatest hd hlive
    replace hlatest : Function.update s.latest c.agentId (some k) agentId = some j := hlatest
    show Function.update s.tunnels c.agentId (some k) agentId = some j
    by_cases hagent : agentId = c.agentId
    · rw [hagent, Function.update_self] at hlatest ⊢
      exact hlatest
    · rw [Function.update_of_ne hagent] at hlatest ⊢
      have hj := hdiffers agentId j hagent hlatest
      exact hs.found agentId j d hlatest ((hother j hj).symm.trans hd) hlive

/-- The entry of an agent is removed while its latest connection is not live. -/
theorem Inv.remove (hs : s.Inv) {agentId : String}
    (hdead : ∀ k c, s.latest agentId = some k → s.connections k = some c → ¬ Live c) :
    (s.removeTunnel agentId).Inv := by
  refine ⟨hs.owner, ?_⟩
  intro agentId' k c hlatest hc hlive
  show Function.update s.tunnels agentId none agentId' = some k
  by_cases hagent : agentId' = agentId
  · subst hagent
    exact absurd hlive (hdead k c hlatest hc)
  · rw [Function.update_of_ne hagent]
    exact hs.found agentId' k c hlatest hc hlive

/-- A new connection has not been registered yet. -/
theorem Inv.accept (hs : s.Inv) {agentId : String} (hfree : s.connections k = none) :
    Inv { s with
      connections := Function.update s.connections k (some ⟨agentId, .open, .registering⟩) } := by
  have hother : ∀ agentId j, s.latest agentId = some j → j ≠ k := by
    rintro agentId j hlatest rfl
    rcases hs.owner agentId j hlatest with ⟨d, hd, -⟩
    rw [hfree] at hd
    cases hd
  constructor
  · intro agentId' j hlatest
    rcases hs.owner agentId' j hlatest with ⟨d, hd, howner⟩
    exact ⟨d, (Function.update_of_ne (hother agentId' j hlatest) _ _).trans hd, howner⟩
  · intro agentId' j d hlatest hd hlive
    refine hs.found agentId' j d hlatest ?_ hlive
    exact (Function.update_of_ne (hother agentId' j hlatest) _ _).symm.trans hd

theorem inv_initial : initial.Inv := by
  constructor
  · intro agentId k hlatest
    cases hlatest
  · intro agentId k c hlatest
    cases hlatest

/-- What `RemoveTunnel` meets when no superseded handler calls it. -/
theorem Inv.removal (hs : s.Inv) (hc : s.connections k = some c)
    (hfresh : s.NoStaleRemoval (.removeTunnel k)) :
    ((s.setHandler k .tunnelRemoved).removeTunnel c.agentId).Inv := by
  have hphase : HandlerPhase.tunnelRemoved ≠ .receiving := by decide
  apply Inv.remove (hs.setHandler hphase)
  intro j d hlatest hd hlive
  replace hd : Function.update s.connections k _ j = some d := hd
  by_cases hj : j = k
  · -- the connection that removes is no longer receiving
    subst hj
    rw [Function.update_self, hc] at hd
    obtain rfl := Option.some.inj hd
    exact hphase hlive.2
  · rw [Function.update_of_ne hj] at hd
    exact hj (hfresh c hc j d hlatest hd hlive)

/-- Every step that is no stale removal keeps the invariant. -/
theorem Inv.step (hs : s.Inv) {event : Event} (hfresh : s.NoStaleRemoval event)
    (hstep : s.step event = some t) : t.Inv := by
  unfold Gateway.step at hstep
  cases hc : s.connections event.connection with
  -- a connection that is not there yet can only be accepted
  | none =>
    cases event with
    | accept k agentId =>
      simp only [hc, Option.some.injEq] at hstep
      rw [← hstep]
      exact hs.accept hc
    | _ =>
      simp only [hc] at hstep
      cases hstep
  | some c =>
    rw [hc] at hstep
    cases event with
    | accept k agentId => cases hstep
    | addTunnel k =>
      simp only [handle] at hstep
      split_ifs at hstep
      obtain rfl := Option.some.inj hstep
      exact hs.register hc
    | supersede k =>
      simp only [handle] at hstep
      split at hstep
      · split_ifs at hstep
        obtain rfl := Option.some.inj hstep
        -- the old socket is closed, which ends its claim to the tunnel
        refine Inv.setHandler (hs.modify ?_ ?_) HandlerPhase.noConfusion
        · intro d
          split_ifs <;> rfl
        · intro d _ hlive
          split_ifs at hlive
          · cases hlive.1
          · exact hlive
      · cases hstep
    | updateTunnel k =>
      simp only [handle] at hstep
      split at hstep
      · split_ifs at hstep
        · obtain rfl := Option.some.inj hstep
          exact hs.register hc
        · obtain rfl := Option.some.inj hstep
          exact hs.setHandler HandlerPhase.noConfusion
      · cases hstep
    | observeClose k =>
      simp only [handle] at hstep
      split_ifs at hstep
      obtain rfl := Option.some.inj hstep
      exact hs.modify (fun _ => rfl) (fun _ _ h => by cases h.2)
    | connectionLost k =>
      simp only [handle] at hstep
      split_ifs at hstep
      obtain rfl := Option.some.inj hstep
      exact hs.modify (fun _ => rfl) (fun _ _ h => by cases h.2)
    | removeTunnel k =>
      simp only [handle] at hstep
      split_ifs at hstep
      obtain rfl := Option.some.inj hstep
      -- the one step that can lose a tunnel: the guard is what keeps it
      exact hs.removal hc hfresh
    | closeSocket k =>
      simp only [handle] at hstep
      split_ifs at hstep
      obtain rfl := Option.some.inj hstep
      exact hs.modify (fun _ => rfl) (fun _ _ h => by cases h.2)

/-- A stale removal leaves the agent without the socket that is open. -/
theorem staleRemoval_loses (hstep : s.step (.removeTunnel k) = some t)
    (hstale : ¬ s.NoStaleRemoval (.removeTunnel k)) : ¬ t.LatestFound := by
  simp only [NoStaleRemoval, not_forall] at hstale
  rcases hstale with ⟨c, hc, j, d, hlatest, hd, hlive, hj⟩
  unfold Gateway.step at hstep
  simp only [Event.connection, hc, handle] at hstep
  split_ifs at hstep
  obtain rfl := Option.some.inj hstep
  intro hfound
  have hget := hfound c.agentId j d hlatest ((Function.update_of_ne hj _ _).trans hd) hlive
  replace hget : Function.update s.tunnels c.agentId none c.agentId = some j := hget
  rw [Function.update_self] at hget
  cases hget

end

/-! ## Runs -/

/-- Connections and handlers in any interleaving, without a stale removal: the most
recently registered socket of every agent is found while it is open and its handler
has not observed a close. A stale removal is what makes this fail, at once. -/
theorem reconnected_reachable (events : List Event) (s : Gateway)
    (hrun : run step initial events = some s)
    (hfresh : AtEach step NoStaleRemoval initial events) :
    s.LatestFound ∧ ∀ k t, s.step (.removeTunnel k) = some t →
      ¬ s.NoStaleRemoval (.removeTunnel k) → ¬ t.LatestFound := by
  have hs : s.Inv := run_invariant_of (fun s event t hs hP hstep => hs.step hP hstep) events initial s
    inv_initial hfresh hrun
  exact ⟨hs.found, fun k t hstep hstale => staleRemoval_loses hstep hstale⟩

/-- An agent connects, and connects again; the first handler ends after that. -/
def reconnect : List Event :=
  [.accept 0 "scout", .addTunnel 0, .accept 1 "scout", .supersede 1, .updateTunnel 1,
    .observeClose 0]

/-- The second connection is found as long as the first handler has not removed it. -/
theorem reconnected_reachable_second :
    ∃ s, run step initial reconnect = some s ∧ s.tryGetTunnel "scout" = some 1 := by
  refine ⟨_, rfl, ?_⟩
  refine (reconnected_reachable reconnect _ rfl ?_).1 "scout" 1 ⟨"scout", .open, .receiving⟩ rfl rfl
    ⟨rfl, rfl⟩
  exact ⟨trivial, fun _ _ => ⟨trivial, fun _ _ => ⟨trivial, fun _ _ => ⟨trivial, fun _ _ =>
    ⟨trivial, fun _ _ => ⟨trivial, fun _ _ => trivial⟩⟩⟩⟩⟩⟩

/-- When it removes it, the agent cannot be reached, although its socket is open. -/
theorem superseded_handler_removes :
    ∃ s, run step initial (reconnect ++ [.removeTunnel 0]) = some s ∧
      s.connections 1 = some ⟨"scout", .open, .receiving⟩ ∧ s.tryGetTunnel "scout" = none ∧
      ¬ s.LatestFound := by
  refine ⟨_, rfl, rfl, rfl, ?_⟩
  intro hfound
  cases hfound "scout" 1 ⟨"scout", .open, .receiving⟩ rfl rfl ⟨rfl, rfl⟩

end Gateway

end ManagedSecurity
