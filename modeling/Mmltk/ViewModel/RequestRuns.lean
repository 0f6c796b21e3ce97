import Mathlib.Data.List.Induction
import Mathlib.Data.List.Pairwise
import Mathlib.Data.Nat.Basic
import Mmltk.ViewModel.Requests

namespace Mmltk.ViewModel

open Mmltk.Foundation

/-! Runs of requests: each correlation is issued once and settled at most once, by a peer that was
not lost in between. -/

variable {E Y T R F V : Type} [DecidableEq E] [DecidableEq Y] [DecidableEq T]

/-- What the application and its peer do; `dialog` is any other change of the dialog context. -/
inductive RequestOp (E T R F V : Type) where
  | register (expected : E) (detail : PendingDetail T R F)
      (encode : Nat → EncodedApplicationIntent E V)
  | reply (correlation fingerprint : Nat) (decode : E → Except ApplicationError E)
  | abandon (correlation : Nat)
  | connected
  | disconnected
  | bootstrap (accepted : Bool)
  | dialog (context : Option T)

/-- What happens to correlations; `cleared` when a peer comes, goes or starts anew. -/
inductive RequestEvent where
  | issued (correlation : Nat)
  | settled (correlation : Nat) (settlement : RequestModel.Settlement)
  | abandoned (correlation : Nat)
  | cleared
  deriving DecidableEq, Repr

def RequestEvent.correlation? : RequestEvent → Option Nat
  | .issued correlation | .settled correlation _ | .abandoned correlation => some correlation
  | .cleared => none

def issuedCorrelations (events : List RequestEvent) : List Nat :=
  events.filterMap fun event =>
    match event with
    | .issued correlation => some correlation
    | _ => none

theorem issuedCorrelations_append (events later : List RequestEvent) :
    issuedCorrelations (events ++ later) = issuedCorrelations events ++ issuedCorrelations later :=
  List.filterMap_append

namespace RequestModel

variable {endpoints : Endpoints E Y} {installReply : E → Option T → Option T}
  {model after : RequestModel E T R F} {correlation : Nat}

def step (endpoints : Endpoints E Y) (installReply : E → Option T → Option T)
    (model : RequestModel E T R F) (op : RequestOp E T R F V) :
    RequestModel E T R F × Option RequestEvent :=
  match op with
  | .register expected detail encode =>
      match registerIntentWithDetail endpoints expected detail encode model with
      | (after, .ok record) => (after, some (.issued record.correlation))
      | (after, .error _) => (after, none)
  | .reply correlation fingerprint decode =>
      match model.receiveReply endpoints installReply correlation fingerprint decode with
      | (after, some settlement) => (after, some (.settled correlation settlement))
      | (after, none) => (after, none)
  | .abandon correlation =>
      (model.abandonIntent endpoints correlation,
        (model.pendingRequest correlation).map fun _ => .abandoned correlation)
  | .connected => (model.peerConnected, some .cleared)
  | .disconnected => (model.peerDisconnected, some .cleared)
  | .bootstrap accepted => (model.installBootstrap accepted, if accepted then some .cleared else none)
  | .dialog context => ({ model with dialogContext := context }, none)

/-- A run and its events, in order. -/
def run (endpoints : Endpoints E Y) (installReply : E → Option T → Option T) :
    RequestModel E T R F → List (RequestOp E T R F V) → RequestModel E T R F × List RequestEvent
  | model, [] => (model, [])
  | model, op :: rest =>
      let (middle, event) := step endpoints installReply model op
      let (final, events) := run endpoints installReply middle rest
      (final, event.toList ++ events)

/-! What registration does. -/

/-- A request that is registered: it has the next correlation, and there was room for it. -/
structure Registered (endpoints : Endpoints E Y) (expected : E) (model : RequestModel E T R F)
    (record : Intent V) (after : RequestModel E T R F) : Prop where
  correlation : record.correlation = model.nextCorrelation
  room : model.pending.length < maxPendingIntents
  free : endpoints.system expected = endpoints.annotation ∨
    ∀ entry ∈ model.pending, endpoints.system entry.2.endpoint ≠ endpoints.system expected
  kept : ∃ detail, after = { model with
    nextCorrelation := model.nextCorrelation + 1
    pending := model.pending ++ [(model.nextCorrelation, ⟨expected, detail⟩)] }

omit [DecidableEq T] in
variable (endpoints) in
theorem register_spec (expected : E) (detail : PendingDetail T R F)
    (encode : Nat → EncodedApplicationIntent E V) (model : RequestModel E T R F) :
    Transaction.Ensures (fun before => before = model)
      (registerIntentWithDetail endpoints expected detail encode)
      (Registered endpoints expected model) fun _ after => after = model := by
  refine .read fun before hbefore => ?_
  subst hbefore
  refine .branch (fun _ => .fail fun _ h => h) fun _ =>
    .branch (fun _ => .fail fun _ h => h) fun _ =>
      .branch (fun _ => .fail fun _ h => h) fun hidentity => ?_
  have hcorrelation := Decidable.not_not.mp (not_or.mp hidentity).1
  cases endpoints.decode (encode before.nextCorrelation).record.endpointId with
  | none => exact .fail fun _ h => h
  | some decoded =>
      refine .branch (fun _ => .fail fun _ h => h) fun _ =>
        .lift_bind (fun kept _ => ?_) fun _ _ _ h => h
      refine .branch (fun _ => .fail fun _ h => h) fun hroom =>
        .branch (fun _ => .fail fun _ h => h) fun hfree => ?_
      refine .modify_bind fun state hstate => .pure fun after hafter => ?_
      subst hstate hafter
      refine ⟨hcorrelation, Nat.not_le.mp hroom, ?_, kept, rfl⟩
      rcases Decidable.em (endpoints.system expected = endpoints.annotation) with howner | howner
      · exact .inl howner
      · refine .inr fun entry hentry hsame => hfree ⟨howner, ?_⟩
        exact List.any_eq_true.mpr ⟨entry, hentry, decide_eq_true hsame⟩

omit [DecidableEq T] in
variable (endpoints) in
theorem register_cases (expected : E) (detail : PendingDetail T R F)
    (encode : Nat → EncodedApplicationIntent E V) (model : RequestModel E T R F) :
    (∃ failure, registerIntentWithDetail endpoints expected detail encode model =
        (model, .error failure)) ∨
      ∃ record after, registerIntentWithDetail endpoints expected detail encode model =
        (after, .ok record) ∧ Registered endpoints expected model record after := by
  have hrun := register_spec endpoints expected detail encode model model rfl
  cases hresult : registerIntentWithDetail endpoints expected detail encode model with
  | mk after result =>
      rw [hresult] at hrun
      cases result with
      | ok record => exact .inr ⟨record, after, rfl, hrun⟩
      | error failure => exact .inl ⟨failure, by rw [hrun]⟩

/-! The invariant. -/

/-- Issued and neither settled nor abandoned since, with the same peer. -/
structure Open (events : List RequestEvent) (correlation : Nat) : Prop where
  issued : ∃ before after, events = before ++ .issued correlation :: after ∧
    RequestEvent.cleared ∉ after
  unsettled : ∀ settlement, .settled correlation settlement ∉ events
  kept : .abandoned correlation ∉ events

/-- What holds of the model after the events so far. -/
structure Sound (endpoints : Endpoints E Y) (model : RequestModel E T R F)
    (events : List RequestEvent) : Prop where
  increasing : (issuedCorrelations events).Pairwise (· < ·)
  past : ∀ event ∈ events, ∀ correlation, event.correlation? = some correlation →
    correlation < model.nextCorrelation
  opened : ∀ entry ∈ model.pending, Open events entry.1
  distinct : model.pending.Pairwise fun entry other => entry.1 ≠ other.1
  room : model.pending.length ≤ maxPendingIntents
  systems : model.pending.Pairwise fun entry other =>
    endpoints.system other.2.endpoint = endpoints.annotation ∨
      endpoints.system entry.2.endpoint ≠ endpoints.system other.2.endpoint
  settledOpen : ∀ before correlation settlement after,
    events = before ++ .settled correlation settlement :: after → Open before correlation

section Events

variable {events : List RequestEvent} {event : RequestEvent}

theorem Open.mem (h : Open events correlation) : .issued correlation ∈ events := by
  obtain ⟨before, after, rfl, -⟩ := h.issued
  exact List.mem_append_right _ List.mem_cons_self

theorem Open.append (h : Open events correlation) (hcleared : event ≠ .cleared)
    (hother : event.correlation? ≠ some correlation) : Open (events ++ [event]) correlation where
  issued := by
    obtain ⟨before, after, rfl, hkept⟩ := h.issued
    refine ⟨before, after ++ [event], by simp, fun hmem => ?_⟩
    cases List.mem_append.mp hmem with
    | inl hafter => exact hkept hafter
    | inr hlast => exact hcleared (List.mem_singleton.mp hlast).symm
  unsettled settlement hmem := by
    cases List.mem_append.mp hmem with
    | inl hbefore => exact h.unsettled settlement hbefore
    | inr hlast => exact hother (List.mem_singleton.mp hlast ▸ rfl)
  kept hmem := by
    cases List.mem_append.mp hmem with
    | inl hbefore => exact h.kept hbefore
    | inr hlast => exact hother (List.mem_singleton.mp hlast ▸ rfl)

/-- A correlation that no event has had is open from its issue on. -/
theorem open_issued (hfresh : ∀ event ∈ events, event.correlation? ≠ some correlation) :
    Open (events ++ [.issued correlation]) correlation where
  issued := ⟨events, [], rfl, List.not_mem_nil⟩
  unsettled settlement hmem := by
    cases List.mem_append.mp hmem with
    | inl hbefore => exact hfresh _ hbefore rfl
    | inr hlast => cases List.mem_singleton.mp hlast
  kept hmem := by
    cases List.mem_append.mp hmem with
    | inl hbefore => exact hfresh _ hbefore rfl
    | inr hlast => cases List.mem_singleton.mp hlast

/-- A settlement is one of those before or the last event. -/
theorem settledOpen_append (h : ∀ before correlation settlement after,
      events = before ++ .settled correlation settlement :: after → Open before correlation)
    (hlast : ∀ correlation settlement, event = .settled correlation settlement →
      Open events correlation) :
    ∀ before correlation settlement after,
      events ++ [event] = before ++ .settled correlation settlement :: after →
        Open before correlation := by
  intro before correlation settlement after hsplit
  cases after using List.reverseRecOn with
  | nil =>
      obtain ⟨rfl, hevent⟩ := List.append_inj' hsplit rfl
      exact hlast correlation settlement (List.singleton_inj.mp hevent)
  | append_singleton after last _ =>
      rw [← List.cons_append, ← List.append_assoc] at hsplit
      exact h before correlation settlement after (List.append_inj' hsplit rfl).1

end Events

section Steps

variable {events : List RequestEvent} {event : RequestEvent}

omit [DecidableEq E] [DecidableEq Y] [DecidableEq T] in
theorem Sound.congr (h : Sound endpoints model events) (hpending : after.pending = model.pending)
    (hnext : after.nextCorrelation = model.nextCorrelation) : Sound endpoints after events where
  increasing := h.increasing
  past := hnext ▸ h.past
  opened := hpending ▸ h.opened
  distinct := hpending ▸ h.distinct
  room := hpending ▸ h.room
  systems := hpending ▸ h.systems
  settledOpen := h.settledOpen

omit [DecidableEq E] [DecidableEq Y] [DecidableEq T] in
theorem Sound.open_lt (h : Sound endpoints model events) (hopen : Open events correlation) :
    correlation < model.nextCorrelation :=
  h.past _ hopen.mem correlation rfl

omit [DecidableEq E] [DecidableEq Y] [DecidableEq T] in
variable (endpoints) in
theorem Sound.initial : Sound endpoints (RequestModel.initial : RequestModel E T R F) [] where
  increasing := .nil
  past _ hmem := absurd hmem List.not_mem_nil
  opened _ hmem := absurd hmem List.not_mem_nil
  distinct := .nil
  room := Nat.zero_le _
  systems := .nil
  settledOpen before correlation settlement after hsplit := by
    have hlength := congrArg List.length hsplit
    simp at hlength

omit [DecidableEq E] [DecidableEq Y] [DecidableEq T] in
theorem Sound.registered {expected : E} {record : Intent V} (h : Sound endpoints model events)
    (hregistered : Registered endpoints expected model record after) :
    Sound endpoints after (events ++ [.issued record.correlation]) := by
  obtain ⟨hcorrelation, hroom, hfree, detail, rfl⟩ := hregistered
  have hold : ∀ entry ∈ model.pending, entry.1 < model.nextCorrelation := fun entry hentry =>
    h.open_lt (h.opened entry hentry)
  have hfresh : ∀ event ∈ events, event.correlation? ≠ some model.nextCorrelation :=
    fun event hevent hsame => Nat.lt_irrefl _ (h.past event hevent _ hsame)
  rw [hcorrelation]
  constructor
  case increasing =>
    rw [issuedCorrelations_append]
    refine List.pairwise_append.mpr ⟨h.increasing, List.pairwise_singleton .., ?_⟩
    intro earlier hearlier last hlast
    obtain rfl := List.mem_singleton.mp hlast
    obtain ⟨event, hevent, hissued⟩ := List.mem_filterMap.mp hearlier
    refine h.past event hevent earlier ?_
    cases event with
    | issued correlation => exact hissued
    | settled correlation settlement => cases hissued
    | abandoned correlation => cases hissued
    | cleared => cases hissued
  case past =>
    intro event hevent correlation hcorrelation
    cases List.mem_append.mp hevent with
    | inl hbefore => exact Nat.lt_succ_of_lt (h.past event hbefore correlation hcorrelation)
    | inr hlast =>
        obtain rfl := List.mem_singleton.mp hlast
        cases hcorrelation
        exact Nat.lt_succ_self _
  case opened =>
    intro entry hentry
    cases List.mem_append.mp hentry with
    | inl hbefore =>
        refine (h.opened entry hbefore).append (by simp) fun hsame => ?_
        exact Nat.ne_of_gt (hold entry hbefore) (Option.some.inj hsame)
    | inr hnew =>
        obtain rfl := List.mem_singleton.mp hnew
        exact open_issued hfresh
  case distinct =>
    refine List.pairwise_append.mpr ⟨h.distinct, List.pairwise_singleton .., ?_⟩
    intro entry hentry new hnew
    obtain rfl := List.mem_singleton.mp hnew
    exact Nat.ne_of_lt (hold entry hentry)
  case room =>
    rw [List.length_append, List.length_singleton]
    exact hroom
  case systems =>
    refine List.pairwise_append.mpr ⟨h.systems, List.pairwise_singleton .., ?_⟩
    intro entry hentry new hnew
    obtain rfl := List.mem_singleton.mp hnew
    exact hfree.imp_right fun hothers => hothers entry hentry
  case settledOpen =>
    exact settledOpen_append h.settledOpen fun _ _ hevent => nomatch hevent

omit [DecidableEq E] [DecidableEq Y] [DecidableEq T] in
/-- A pending request goes, with an event of its correlation. -/
theorem Sound.removed (h : Sound endpoints model events)
    (hpending : after.pending = model.pending.filter fun entry => entry.1 ≠ correlation)
    (hnext : after.nextCorrelation = model.nextCorrelation) (hopen : Open events correlation)
    (hevent : (∃ settlement, event = .settled correlation settlement) ∨
      event = .abandoned correlation) : Sound endpoints after (events ++ [event]) := by
  have hcorrelation : event.correlation? = some correlation := by
    rcases hevent with ⟨settlement, rfl⟩ | rfl
    · rfl
    · rfl
  have hnotIssued : issuedCorrelations [event] = [] := by
    rcases hevent with ⟨settlement, rfl⟩ | rfl
    · rfl
    · rfl
  have hnotCleared : event ≠ .cleared := by
    rintro rfl
    cases hcorrelation
  constructor
  case increasing =>
    rw [issuedCorrelations_append, hnotIssued, List.append_nil]
    exact h.increasing
  case past =>
    intro other hother correlation' hsame
    rw [hnext]
    cases List.mem_append.mp hother with
    | inl hbefore => exact h.past other hbefore correlation' hsame
    | inr hlast =>
        obtain rfl := List.mem_singleton.mp hlast
        obtain rfl := Option.some.inj (hcorrelation.symm.trans hsame)
        exact h.open_lt hopen
  case opened =>
    intro entry hentry
    rw [hpending, List.mem_filter] at hentry
    refine (h.opened entry hentry.1).append hnotCleared ?_
    rw [hcorrelation]
    exact fun hsame => of_decide_eq_true hentry.2 (Option.some.inj hsame).symm
  case distinct => exact hpending ▸ h.distinct.filter _
  case room => exact hpending ▸ Nat.le_trans (List.length_filter_le _ _) h.room
  case systems => exact hpending ▸ h.systems.filter _
  case settledOpen =>
    refine settledOpen_append h.settledOpen fun correlation' settlement hsettled => ?_
    rw [hsettled] at hcorrelation
    exact Option.some.inj hcorrelation ▸ hopen

omit [DecidableEq E] [DecidableEq Y] [DecidableEq T] in
theorem Sound.cleared (h : Sound endpoints model events) (hpending : after.pending = [])
    (hnext : after.nextCorrelation = model.nextCorrelation) :
    Sound endpoints after (events ++ [.cleared]) where
  increasing := by
    rw [issuedCorrelations_append]
    exact (List.append_nil (issuedCorrelations events)).symm ▸ h.increasing
  past event hevent correlation hsame := by
    rw [hnext]
    cases List.mem_append.mp hevent with
    | inl hbefore => exact h.past event hbefore correlation hsame
    | inr hlast =>
        obtain rfl := List.mem_singleton.mp hlast
        cases hsame
  opened := by
    rw [hpending]
    exact fun _ hmem => absurd hmem List.not_mem_nil
  distinct := hpending ▸ .nil
  room := hpending ▸ Nat.zero_le _
  systems := hpending ▸ .nil
  settledOpen := settledOpen_append h.settledOpen fun _ _ hevent => nomatch hevent

omit [DecidableEq E] [DecidableEq Y] [DecidableEq T] in
theorem Sound.pending_open (h : Sound endpoints model events) {request : PendingRequest E T R F}
    (hrequest : model.pendingRequest correlation = some request) : Open events correlation := by
  obtain ⟨entry, hentry, -⟩ := Option.map_eq_some_iff.mp hrequest
  have hsame := List.find?_some hentry
  exact of_decide_eq_true hsame ▸ h.opened entry (List.mem_of_find?_eq_some hentry)

omit [DecidableEq E] in
theorem clearDialogTargetIfMatches_eq (model : RequestModel E T R F) (target : T) :
    ∃ context, model.clearDialogTargetIfMatches target = { model with dialogContext := context } := by
  rw [clearDialogTargetIfMatches]
  split
  · exact ⟨none, rfl⟩
  · exact ⟨model.dialogContext, rfl⟩

omit [DecidableEq Y] in
variable (endpoints installReply) in
/-- A reply removes the request that it settles, and nothing else changes in the ledger. -/
theorem reduceReply_spec (model : RequestModel E T R F) (correlation : Nat)
    (result : Except ApplicationError E) {request : PendingRequest E T R F}
    (hrequest : model.pendingRequest correlation = some request) :
    ∃ context settlement, model.reduceReply endpoints installReply correlation result =
      ({ model.removePending correlation with dialogContext := context }, some settlement) := by
  unfold reduceReply
  simp only [hrequest]
  cases result with
  | error failure =>
      dsimp only
      split
      · rename_i target hendpoint hdetail
        obtain ⟨context, hcontext⟩ := model.clearDialogTargetIfMatches_eq target
        exact ⟨context, .failed, by rw [hcontext]; rfl⟩
      · exact ⟨model.dialogContext, .failed, rfl⟩
  | ok endpoint =>
      dsimp only
      split
      · split
        · exact ⟨none, .wrongKind, rfl⟩
        · exact ⟨model.dialogContext, .wrongKind, rfl⟩
      · exact ⟨installReply endpoint model.dialogContext, .installed, rfl⟩

omit [DecidableEq Y] in
variable (endpoints installReply) in
theorem receiveReply_cases (model : RequestModel E T R F) (correlation fingerprint : Nat)
    (decode : E → Except ApplicationError E) :
    (∃ settled, model.receiveReply endpoints installReply correlation fingerprint decode =
        ({ model with settledReplies := settled }, none)) ∨
      ∃ settled context settlement request,
        model.receiveReply endpoints installReply correlation fingerprint decode =
          ({ model.removePending correlation with
              settledReplies := settled, dialogContext := context }, some settlement) ∧
          model.pendingRequest correlation = some request := by
  unfold receiveReply
  cases haccept : model.acceptReply correlation fingerprint with
  | mk accepted result =>
      have hkept : ∃ settled, accepted = { model with settledReplies := settled } := by
        have hfirst := congrArg Prod.fst haccept
        unfold acceptReply at hfirst
        split at hfirst
        · exact ⟨_, hfirst.symm⟩
        · split at hfirst
          · exact ⟨_, hfirst.symm⟩
          · split at hfirst
            · exact ⟨_, hfirst.symm⟩
            · exact ⟨_, hfirst.symm⟩
      obtain ⟨settled, rfl⟩ := hkept
      cases result with
      | false => exact .inl ⟨settled, rfl⟩
      | true =>
          dsimp only
          cases hrequest : pendingRequest { model with settledReplies := settled } correlation with
          | none => exact .inl ⟨settled, rfl⟩
          | some request =>
              obtain ⟨context, settlement, hreduced⟩ :=
                reduceReply_spec endpoints installReply
                  { model with settledReplies := settled } correlation (decode request.endpoint)
                  hrequest
              exact .inr ⟨settled, context, settlement, request, hreduced, hrequest⟩

variable (installReply) in
/-- One operation keeps the model sound for its events. -/
theorem Sound.step (h : Sound endpoints model events) (op : RequestOp E T R F V) :
    Sound endpoints (RequestModel.step endpoints installReply model op).1
      (events ++ (RequestModel.step endpoints installReply model op).2.toList) := by
  have hsame : ∀ {after : RequestModel E T R F}, after.pending = model.pending →
      after.nextCorrelation = model.nextCorrelation → Sound endpoints after (events ++ []) :=
    fun hpending hnext => (List.append_nil events).symm ▸ h.congr hpending hnext
  cases op with
  | register expected detail encode =>
      rw [RequestModel.step]
      cases register_cases endpoints expected detail encode model with
      | inl hfailed =>
          obtain ⟨failure, hfailed⟩ := hfailed
          simp only [hfailed]
          exact hsame rfl rfl
      | inr hissued =>
          obtain ⟨record, after, hissued, hregistered⟩ := hissued
          simp only [hissued]
          exact h.registered hregistered
  | reply correlation fingerprint decode =>
      rw [RequestModel.step]
      cases receiveReply_cases endpoints installReply model
        correlation fingerprint decode with
      | inl hdropped =>
          obtain ⟨settled, hdropped⟩ := hdropped
          simp only [hdropped]
          exact hsame rfl rfl
      | inr hsettled =>
          obtain ⟨settled, context, settlement, request, hsettled, hrequest⟩ := hsettled
          simp only [hsettled]
          exact h.removed rfl rfl (h.pending_open hrequest) (.inl ⟨settlement, rfl⟩)
  | abandon correlation =>
      rw [RequestModel.step, abandonIntent]
      cases hrequest : model.pendingRequest correlation with
      | none => exact hsame rfl rfl
      | some request =>
          have hopen := h.pending_open hrequest
          dsimp only
          split
          · split
            · rename_i target hdetail
              obtain ⟨context, hcontext⟩ :=
                (model.removePending correlation).clearDialogTargetIfMatches_eq target
              rw [hcontext]
              exact h.removed rfl rfl hopen (.inr rfl)
            · exact h.removed rfl rfl hopen (.inr rfl)
          · exact h.removed rfl rfl hopen (.inr rfl)
  | connected => exact h.cleared rfl rfl
  | disconnected => exact h.cleared rfl rfl
  | bootstrap accepted =>
      cases accepted with
      | true => exact h.cleared rfl rfl
      | false => exact hsame rfl rfl
  | dialog context => exact hsame rfl rfl

variable (installReply) in
theorem Sound.run (h : Sound endpoints model events) (ops : List (RequestOp E T R F V)) :
    Sound endpoints (RequestModel.run endpoints installReply model ops).1
      (events ++ (RequestModel.run endpoints installReply model ops).2) := by
  induction ops generalizing model events with
  | nil => exact (List.append_nil events).symm ▸ h
  | cons op rest ih =>
      rw [RequestModel.run]
      have hrest := ih (h.step installReply op)
      rwa [List.append_assoc] at hrest

end Steps

/-- In every run correlations are issued in order and never again, the pending requests are few
and at most one of a system but for annotation, a failed registration changes nothing, and a
correlation is settled only while it is open: issued, not settled or abandoned, and the peer the
same since. -/
theorem requests_sound (endpoints : Endpoints E Y) (installReply : E → Option T → Option T)
    (ops : List (RequestOp E T R F V)) :
    let model := (run endpoints installReply (initial : RequestModel E T R F) ops).1
    let events := (run endpoints installReply (initial : RequestModel E T R F) ops).2
    (issuedCorrelations events).Pairwise (· < ·) ∧
      (∀ correlation ∈ issuedCorrelations events, correlation < model.nextCorrelation) ∧
      model.pending.length ≤ maxPendingIntents ∧
      (∀ system, system ≠ endpoints.annotation →
        (model.pending.filter fun entry => endpoints.system entry.2.endpoint = system).length ≤ 1) ∧
      (∀ expected detail (encode : Nat → EncodedApplicationIntent E V) failure,
        (registerIntentWithDetail endpoints expected detail encode model).2 = .error failure →
        (registerIntentWithDetail endpoints expected detail encode model).1 = model) ∧
      ∀ before correlation settlement after,
        events = before ++ .settled correlation settlement :: after → Open before correlation := by
  intro model events
  have h : Sound endpoints model events :=
    (Sound.initial endpoints).run installReply ops
  refine ⟨h.increasing, fun correlation hissued => ?_, h.room, fun system hother => ?_,
    fun expected detail encode failure herror => ?_, h.settledOpen⟩
  · obtain ⟨event, hevent, hsome⟩ := List.mem_filterMap.mp hissued
    refine h.past event hevent correlation ?_
    cases event with
    | issued other => exact hsome
    | settled other settlement => cases hsome
    | abandoned other => cases hsome
    | cleared => cases hsome
  · have hpairs := h.systems.filter fun entry => endpoints.system entry.2.endpoint = system
    cases hfilter : model.pending.filter fun entry => endpoints.system entry.2.endpoint = system with
    | nil => exact Nat.zero_le _
    | cons first rest =>
        cases rest with
        | nil => exact Nat.le_refl _
        | cons second rest =>
            have hsystem : ∀ entry ∈ first :: second :: rest,
                endpoints.system entry.2.endpoint = system := fun entry hentry => by
                rw [← hfilter, List.mem_filter] at hentry
                exact of_decide_eq_true hentry.2
            rw [hfilter] at hpairs
            have hpair := (List.pairwise_cons.mp hpairs).1 second List.mem_cons_self
            rw [hsystem first List.mem_cons_self,
              hsystem second (List.mem_cons_of_mem _ List.mem_cons_self)] at hpair
            exact absurd (hpair.resolve_right fun hne => hne rfl) hother
  · cases register_cases endpoints expected detail encode model with
    | inl hfailed =>
        obtain ⟨failure, hfailed⟩ := hfailed
        rw [hfailed]
    | inr hissued =>
        obtain ⟨record, after, hissued, -⟩ := hissued
        rw [hissued] at herror
        cases herror

end RequestModel

end Mmltk.ViewModel
