import MatchingEngine.Gateway.Basic

/-!
# What holds of all connections

Apart from reading, the gateway does three things to a connection: it marks it as closing, flushes
its output, and delivers a response to it. A property of connections that these keep, and that a new
connection has, holds of all connections as long as nothing is read.

## Main definitions

* `Gateway.Handled`: a property that the gateway keeps.
* `Gateway.Holds`: it holds of all connections, of which there are not too many.

## Main results

* `Exchange.Step.holds`: every step of the pipeline that reads nothing.
-/

namespace MatchingEngine

namespace Gateway

/-- What the gateway does with a connection keeps a property. -/
structure Handled (config : ServerConfig) (P : Connection → Prop) : Prop where
  markClosing : ∀ c, P c → P { c with closing := true }
  flushOutput : ∀ c results, P c → P (c.flushOutput results).2
  deliver : ∀ c response, P c → P (c.deliver response config.maximumOutputBufferBytes.toNat)

/-- A property holds of all connections, of which there are not too many. -/
structure Holds (config : ServerConfig) (P : Connection → Prop) (g : Gateway) : Prop where
  config_eq : g.config = config
  length_le : g.connections.length ≤ config.maximumConnections.toNat
  of_mem : ∀ c ∈ g.connections, P c

section Holds

variable {config : ServerConfig} {P : Connection → Prop} {g g' : Gateway}

theorem Holds.of_sublist (h : g.Holds config P) (hconfig : g'.config = g.config)
    (hconnections : List.Sublist g'.connections g.connections) : g'.Holds config P :=
  ⟨hconfig.trans h.config_eq, hconnections.length_le.trans h.length_le,
    fun c hc => h.of_mem c (hconnections.subset hc)⟩

theorem Holds.update (h : g.Holds config P) (descriptor : ℕ) {change : Connection → Connection}
    (hchange : ∀ c, P c → P (change c)) : (g.update descriptor change).Holds config P := by
  refine ⟨h.config_eq, ?_, List.forall_mem_map.mpr fun c hc => ?_⟩
  · rw [Gateway.update, List.length_map]
    exact h.length_le
  · split
    · exact hchange c (h.of_mem c hc)
    · exact h.of_mem c hc

theorem Holds.accept (h : g.Holds config P) (descriptor : ℕ)
    (hsize : g.connections.length < config.maximumConnections.toNat)
    (hnew : P ⟨⟨g.nextConnectionId⟩, descriptor,
      .ofLimit config.maximumInputBufferBytes.toNat, .empty, false⟩) :
    (g.accept descriptor).Holds config P := by
  refine ⟨h.config_eq, ?_, ?_⟩
  · rw [Gateway.accept, List.length_append]
    exact hsize
  · refine List.forall_mem_append.mpr ⟨h.of_mem, List.forall_mem_singleton.mpr ?_⟩
    rw [h.config_eq]
    exact hnew

theorem Holds.closeIfFinished (h : g.Holds config P) (descriptor : ℕ) :
    (g.closeIfFinished descriptor).Holds config P := by
  rw [Gateway.closeIfFinished]
  split
  · exact h
  · split
    · exact h.of_sublist rfl List.eraseP_sublist
    · exact h

variable (hhandled : Handled config P)
include hhandled

theorem Holds.markClosing (h : g.Holds config P) (descriptor : ℕ) :
    (g.markClosing descriptor).Holds config P :=
  h.update descriptor hhandled.markClosing

theorem Holds.deliver (h : g.Holds config P) (response : EngineResponse) :
    (g.deliver response).Holds config P := by
  rw [Gateway.deliver]
  split
  · exact h
  · refine h.update _ fun c hc => ?_
    rw [h.config_eq]
    exact hhandled.deliver c response hc

theorem Holds.finishReceiving (h : g.Holds config P) (descriptor : ℕ) (failed : Bool) :
    (g.finishReceiving descriptor failed).Holds config P := by
  have hidle : ({ g with task := .idle } : Gateway).Holds config P :=
    h.of_sublist rfl (List.Sublist.refl _)
  cases failed with
  | false => exact hidle
  | true => exact hidle.markClosing hhandled descriptor

theorem Holds.retainPending (h : g.Holds config P) (id : ConnectionId)
    (message : WireEnvelope ClientMessage) : (g.retainPending id message).Holds config P := by
  rw [Gateway.retainPending]
  split
  · split
    · exact h
    · exact h.markClosing hhandled _
  · exact h.of_sublist rfl (List.Sublist.refl _)

theorem Holds.backOff (h : g.Holds config P) : g.backOff.Holds config P := by
  rw [Gateway.backOff]
  split
  · exact h
  · next descriptor id messages failed _ =>
    have hretained : (messages.foldl (fun g message => g.retainPending id message) g).Holds
        config P := by
      clear * - h hhandled
      induction messages generalizing g with
      | nil => exact h
      | cons message messages ih => exact ih (h.retainPending hhandled id message)
    generalize messages.foldl (fun g message => g.retainPending id message) g = g' at hretained ⊢
    have hpaused : ({ g' with readsPaused := true } : Gateway).Holds config P :=
      hretained.of_sublist rfl (List.Sublist.refl _)
    exact hpaused.finishReceiving hhandled descriptor failed
  · exact h.of_sublist rfl (List.Sublist.refl _)

end Holds

end Gateway

namespace Exchange

variable {maxSize : ℕ} {config : ServerConfig} {P : Connection → Prop} {x x' : Exchange}
  {event : Event}

/-- A step that reads nothing keeps what holds of all connections. -/
theorem Step.holds (hhandled : Gateway.Handled config P) (hstep : Step maxSize x event x')
    (hother : ∀ id messages, event ≠ .received id messages)
    (hnew : x.gateway.nextConnectionId ≠ 0 → ∀ descriptor,
      P ⟨⟨x.gateway.nextConnectionId⟩, descriptor,
        .ofLimit config.maximumInputBufferBytes.toNat, .empty, false⟩)
    (h : x.gateway.Holds config P) : x'.gateway.Holds config P := by
  cases hstep with
  | accept _ _ _ hsize hid =>
    rw [h.config_eq] at hsize
    exact h.accept _ hsize (hnew hid _)
  | receive => exact absurd rfl (hother _ _)
  | hangUp => exact h.markClosing hhandled _
  | flush results => exact h.update _ fun c => hhandled.flushOutput c results
  | closeFinished => exact h.closeIfFinished _
  | finishReceiving => exact h.finishReceiving hhandled _ _
  | enqueue =>
    dsimp only
    rw [Gateway.advance]
    split <;> exact h.of_sublist rfl (List.Sublist.refl _)
  | refuse | reject => exact h.backOff hhandled
  | deliver => exact h.deliver hhandled _
  | exit => exact h.of_sublist rfl (List.nil_sublist _)
  | worker | startDraining | skip | finishDraining | acquire | take | shutdown =>
    exact h.of_sublist rfl (List.Sublist.refl _)

end Exchange

end MatchingEngine
