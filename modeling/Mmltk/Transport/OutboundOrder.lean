import Mathlib.Data.List.Induction
import Mmltk.Transport.Outbound

namespace Mmltk.Transport

/-! A log in which a new entry may take the place of the one before it. -/

inductive Merged {α : Type} (replaced : α → α → Prop) : List α → List α → Prop
  | nil : Merged replaced [] []
  | append {accepted entries : List α} {next : α} (earlier : Merged replaced accepted entries) :
      Merged replaced (accepted ++ [next]) (entries ++ [next])
  | replace {accepted entries : List α} {prior next : α}
      (earlier : Merged replaced (accepted ++ [prior]) (entries ++ [prior]))
      (merges : replaced prior next) :
      Merged replaced (accepted ++ [prior] ++ [next]) (entries ++ [next])

namespace Merged

variable {α : Type} {replaced : α → α → Prop} {accepted entries : List α}

theorem last {prior : α} (h : Merged replaced accepted (entries ++ [prior])) :
    ∃ before, accepted = before ++ [prior] := by
  generalize hlog : entries ++ [prior] = log at h
  cases h with
  | nil => simp at hlog
  | append earlier =>
      obtain ⟨-, hlast⟩ := List.append_inj' hlog rfl
      cases hlast
      exact ⟨_, rfl⟩
  | replace earlier merges =>
      obtain ⟨-, hlast⟩ := List.append_inj' hlog rfl
      cases hlast
      exact ⟨_, rfl⟩

theorem replace_last {prior next : α} (h : Merged replaced accepted (entries ++ [prior]))
    (hmerges : replaced prior next) : Merged replaced (accepted ++ [next]) (entries ++ [next]) := by
  obtain ⟨before, rfl⟩ := h.last
  exact .replace h hmerges

/-- What is never replaced is in the log once for every time it was accepted. -/
theorem filter_eq (h : Merged replaced accepted entries) {keeps : α → Bool}
    (hkeeps : ∀ prior next, replaced prior next → keeps prior = false) :
    entries.filter keeps = accepted.filter keeps := by
  induction h with
  | nil => rfl
  | append _ ih => rw [List.filter_append, List.filter_append, ih]
  | @replace _ _ prior _ _ merges ih =>
      have hprior : [prior].filter keeps = [] := by
        rw [List.filter_singleton, hkeeps _ _ merges]
        rfl
      rw [List.filter_append, List.filter_append, ← ih, List.filter_append, hprior,
        List.append_nil]

end Merged

variable {V : Type} {routing : OutboundRouting} {codec : WireRecord V → Option (List UInt8)}
  {answers : Nat → Bool} {outbound : Outbound V} {peer : Peer V}

/-! What is written came from the queue in its order. -/

def fromQueue : List (WireRecord V) → List (OutboundRecord V)
  | [] => []
  | .queued record :: rest => record :: fromQueue rest
  | .pressureEntered _ :: rest => fromQueue rest

theorem fromQueue_append (left right : List (WireRecord V)) :
    fromQueue (left ++ right) = fromQueue left ++ fromQueue right := by
  induction left with
  | nil => rfl
  | cons record rest ih =>
      cases record with
      | queued record => exact congrArg (record :: ·) ih
      | pressureEntered sequence => exact ih

theorem fromQueue_queued (records : List (OutboundRecord V)) :
    fromQueue (records.map WireRecord.queued) = records := by
  induction records with
  | nil => rfl
  | cons record rest ih => exact congrArg (record :: ·) ih

theorem drain_spec (codec : WireRecord V → Option (List UInt8)) (epoch : Nat)
    (answers : Nat → Bool) (attempt : Nat) (records : List (OutboundRecord V)) :
    ∃ consumed lost, records = consumed ++ lost ++ (drain codec epoch answers attempt records).remaining ∧
      (drain codec epoch answers attempt records).sent = consumed.map (.stamp epoch) ∧
      ((drain codec epoch answers attempt records).failed = false → lost = []) := by
  induction records generalizing attempt with
  | nil => exact ⟨[], [], rfl, rfl, fun _ => rfl⟩
  | cons record rest ih =>
      rw [drain]
      split
      · obtain ⟨consumed, lost, hrecords, hsent, hlost⟩ := ih (attempt + 1)
        refine ⟨record :: consumed, lost, ?_, ?_, hlost⟩
        · exact congrArg (record :: ·) hrecords
        · exact congrArg (record.stamp epoch :: ·) hsent
      · exact ⟨[], [record], rfl, rfl, fun h => (nomatch h)⟩

theorem submitted_fields (endpoints : List Nat) (outbound : Outbound V) :
    (endpoints.foldl Outbound.submitted outbound).records = outbound.records ∧
      (endpoints.foldl Outbound.submitted outbound).closed = outbound.closed ∧
      (endpoints.foldl Outbound.submitted outbound).epoch = outbound.epoch := by
  induction endpoints generalizing outbound with
  | nil => exact ⟨rfl, rfl, rfl⟩
  | cons endpoint rest ih => exact ih (outbound.submitted endpoint)

theorem announcePressure_fields (codec : WireRecord V → Option (List UInt8))
    (answers : Nat → Bool) (attempt : Nat) (outbound : Outbound V) :
    (outbound.announcePressure codec answers attempt).outbound.records = outbound.records ∧
      (outbound.announcePressure codec answers attempt).outbound.closed = outbound.closed ∧
      (outbound.announcePressure codec answers attempt).outbound.epoch = outbound.epoch ∧
      fromQueue (outbound.announcePressure codec answers attempt).written = [] := by
  rw [Outbound.announcePressure]
  split
  · split
    · split
      · exact ⟨rfl, rfl, rfl, rfl⟩
      · exact ⟨rfl, rfl, rfl, rfl⟩
    · exact ⟨rfl, rfl, rfl, rfl⟩
  · exact ⟨rfl, rfl, rfl, rfl⟩

theorem flush_silent (routing : OutboundRouting) (codec : WireRecord V → Option (List UInt8))
    (answers : Nat → Bool) (h : outbound.closed = true ∨ outbound.epoch = 0) :
    (outbound.flush routing codec answers).written = [] ∧
      (outbound.flush routing codec answers).outbound = outbound := by
  rw [Outbound.flush]
  split
  · exact ⟨rfl, rfl⟩
  · next hclosed =>
      rcases h with hclosed' | hepoch
      · exact absurd hclosed' hclosed
      · rw [if_pos hepoch]
        exact ⟨rfl, rfl⟩

theorem flush_spec (routing : OutboundRouting) (codec : WireRecord V → Option (List UInt8))
    (answers : Nat → Bool) (outbound : Outbound V) :
    (outbound.flush routing codec answers).outbound.closed = outbound.closed ∧
      (outbound.flush routing codec answers).outbound.epoch = outbound.epoch ∧
      ∃ consumed lost,
        outbound.records =
          consumed ++ lost ++ (outbound.flush routing codec answers).outbound.records ∧
        fromQueue (outbound.flush routing codec answers).written =
          consumed.map (.stamp outbound.epoch) ∧
        ((outbound.flush routing codec answers).failed = false → lost = []) := by
  by_cases hsilent : outbound.closed = true ∨ outbound.epoch = 0
  · obtain ⟨hwritten, hsame⟩ := flush_silent routing codec answers hsilent
    rw [hwritten, hsame]
    exact ⟨rfl, rfl, [], [], rfl, rfl, fun _ => rfl⟩
  · obtain ⟨hclosed, hepoch⟩ := not_or.mp hsilent
    rw [Outbound.flush, if_neg hclosed, if_neg hepoch]
    simp only
    obtain ⟨consumed, lost, hrecords, hsent, hlost⟩ :=
      drain_spec codec outbound.epoch answers 0 outbound.records
    generalize drain codec outbound.epoch answers 0 outbound.records = drained at *
    obtain ⟨hsubmitted_records, hsubmitted_closed, hsubmitted_epoch⟩ := submitted_fields
      (drained.sent.filterMap (OutboundRecord.endpoint routing))
      { outbound with
        records := drained.remaining,
        writable := if drained.remaining.length < outbound.records.length then false
          else outbound.writable }
    split
    · next hfailed =>
        refine ⟨hsubmitted_closed, hsubmitted_epoch, consumed, lost, ?_, ?_, ?_⟩
        · exact hrecords.trans (congrArg _ hsubmitted_records.symm)
        · exact (fromQueue_queued _).trans hsent
        · exact fun h => (nomatch h)
    · next hfailed =>
        obtain ⟨hrecords', hclosed', hepoch', hwritten⟩ := announcePressure_fields codec answers drained.sent.length
          ((drained.sent.filterMap (OutboundRecord.endpoint routing)).foldl Outbound.submitted
            { outbound with
              records := drained.remaining,
              writable := if drained.remaining.length < outbound.records.length then false
                else outbound.writable })
        refine ⟨hclosed'.trans hsubmitted_closed, hepoch'.trans hsubmitted_epoch, consumed, lost,
          ?_, ?_, fun _ => hlost (Bool.eq_false_iff.mpr hfailed)⟩
        · exact hrecords.trans (congrArg _ (hrecords'.trans hsubmitted_records).symm)
        · rw [fromQueue_append, hwritten, fromQueue_queued, hsent, List.append_nil]

/-! One call on the queue. -/

def Replaced (prior next : OutboundRecord V) : Prop :=
  Outbound.replaces next (some prior) = true

theorem replaced_iff {prior next : OutboundRecord V} :
    Replaced prior next ↔ ∃ earlier later : ScheduledInteraction V,
      prior = .interaction earlier ∧ next = .interaction later ∧ later.replaceable = true ∧
        earlier.record.endpointId = later.record.endpointId := by
  constructor
  · intro h
    cases next with
    | interaction later =>
        cases prior with
        | interaction earlier =>
            rw [Replaced, Outbound.replaces, Bool.and_eq_true, decide_eq_true_eq] at h
            exact ⟨earlier, later, rfl, rfl, h⟩
        | wake => cases h
        | intent _ => cases h
        | mouse _ => cases h
        | integrationControl _ => cases h
    | wake => cases h
    | intent _ => cases h
    | mouse _ => cases h
    | integrationControl _ => cases h
  · intro h
    obtain ⟨earlier, later, rfl, rfl, hreplaceable, hendpoint⟩ := h
    rw [Replaced, Outbound.replaces, hreplaceable, hendpoint, decide_eq_true rfl]
    rfl

structure Enqueues (outbound : Outbound V) (record : OutboundRecord V)
    (result : Outbound V × Except OutboundSendError SendDisposition) (replaced : Bool) : Prop where
  closed : result.1.closed = outbound.closed
  epoch : result.1.epoch = outbound.epoch
  queued : result.2 = .ok .queued → result.1.records =
    (if replaced then outbound.records.dropLast else outbound.records) ++ [record]
  unchanged : result.2 ≠ .ok .queued → result.1.records = outbound.records
  merges : replaced = true →
    ∃ earlier prior, outbound.records = earlier ++ [prior] ∧ Replaced prior record

theorem sendWorkspaceMouse_enqueues (mouse : WorkspaceMouse V) (reserved : Bool) :
    Enqueues outbound (.mouse mouse) (outbound.sendWorkspaceMouse mouse reserved) false := by
  cases reserved with
  | true =>
      exact ⟨rfl, rfl, fun _ => rfl, fun h => absurd rfl h, fun h => (nomatch h)⟩
  | false => exact ⟨rfl, rfl, fun h => (nomatch h), fun _ => rfl, fun h => (nomatch h)⟩

theorem send_enqueues (record : OutboundRecord V) (transient reserved : Bool) :
    Enqueues outbound record (outbound.send routing record transient reserved)
      (outbound.adjacentRecord && Outbound.replaces record outbound.records.getLast?) := by
  rw [Outbound.send]
  cases hreplace : outbound.adjacentRecord && Outbound.replaces record outbound.records.getLast? with
  | true =>
      rw [if_pos rfl]
      refine ⟨rfl, rfl, fun _ => rfl, fun h => absurd rfl h, fun _ => ?_⟩
      obtain ⟨-, hreplaces⟩ := Bool.and_eq_true_iff.mp hreplace
      rcases List.eq_nil_or_concat outbound.records with hnil | ⟨earlier, prior, hrecords⟩
      · rw [hnil] at hreplaces
        cases record with
        | interaction _ => cases hreplaces
        | wake => cases hreplaces
        | intent _ => cases hreplaces
        | mouse _ => cases hreplaces
        | integrationControl _ => cases hreplaces
      · rw [List.concat_eq_append] at hrecords
        rw [hrecords, List.getLast?_concat] at hreplaces
        exact ⟨earlier, prior, hrecords, hreplaces⟩
  | false =>
      rw [if_neg Bool.false_ne_true]
      split
      · cases transient with
        | true => exact ⟨rfl, rfl, fun h => (nomatch h), fun _ => rfl, fun h => (nomatch h)⟩
        | false => exact ⟨rfl, rfl, fun h => (nomatch h), fun _ => rfl, fun h => (nomatch h)⟩
      · split
        · exact ⟨rfl, rfl, fun _ => rfl, fun h => absurd rfl h, fun h => (nomatch h)⟩
        · exact ⟨rfl, rfl, fun h => (nomatch h), fun _ => rfl, fun h => (nomatch h)⟩

/-! What holds of every run. -/

/-- The connection is closed, or its worker has given up on it. -/
def Peer.Ended (peer : Peer V) : Prop :=
  peer.outbound.closed = true ∨ peer.running = false

structure Peer.Ordered (peer : Peer V) : Prop where
  silent : peer.outbound.epoch = 0 → peer.written = []
  merged : Merged Replaced peer.accepted peer.entries
  leaves : ∃ left gap, peer.entries = left ++ gap ++ peer.outbound.records ∧
    fromQueue peer.written = left.map (.stamp peer.outbound.epoch) ∧ (¬ peer.Ended → gap = [])

theorem Peer.Ordered.initial : (Peer.initial routing : Peer V).Ordered where
  silent _ := rfl
  merged := .nil
  leaves := ⟨[], [], rfl, rfl, fun _ => rfl⟩

theorem Peer.Ordered.enqueue (h : peer.Ordered) {record : OutboundRecord V}
    {result : Outbound V × Except OutboundSendError SendDisposition} {replaced : Bool}
    (henqueues : Enqueues peer.outbound record result replaced) :
    (peer.enqueue record result replaced).Ordered := by
  obtain ⟨left, gap, hentries, hwritten, hgap⟩ := h.leaves
  have hended : ∀ {other : Peer V}, other.outbound.closed = result.1.closed →
      other.running = peer.running → ¬ other.Ended → gap = [] := by
    intro other hclosed hrunning hlive
    apply hgap
    rw [Peer.Ended, hclosed, hrunning, henqueues.closed] at hlive
    exact hlive
  rw [Peer.enqueue]
  split
  · exact h
  split
  · next hqueued =>
      refine ⟨?_, ?_, left, gap, ?_, ?_, hended rfl rfl⟩
      · intro hepoch
        exact h.silent (henqueues.epoch.symm.trans hepoch)
      · cases replaced with
        | false => exact h.merged.append
        | true =>
            obtain ⟨earlier, prior, hrecords, hmerges⟩ := henqueues.merges rfl
            have hmerged := h.merged
            rw [hentries, hrecords, ← List.append_assoc] at hmerged
            show Merged Replaced _ (peer.entries.dropLast ++ [record])
            rw [hentries, hrecords, ← List.append_assoc, List.dropLast_concat]
            exact hmerged.replace_last hmerges
      · show _ = left ++ gap ++ result.1.records
        rw [henqueues.queued hqueued]
        cases replaced with
        | false => exact (congrArg (· ++ [record]) hentries).trans (List.append_assoc _ _ _)
        | true =>
            obtain ⟨earlier, prior, hrecords, -⟩ := henqueues.merges rfl
            show peer.entries.dropLast ++ [record] =
              left ++ gap ++ (peer.outbound.records.dropLast ++ [record])
            rw [hentries, hrecords, ← List.append_assoc, List.dropLast_concat,
              List.dropLast_concat, List.append_assoc (left ++ gap)]
      · show fromQueue peer.written = left.map (.stamp result.1.epoch)
        rw [henqueues.epoch]
        exact hwritten
  · next hother =>
      refine ⟨?_, h.merged, left, gap, ?_, ?_, hended rfl rfl⟩
      · intro hepoch
        exact h.silent (henqueues.epoch.symm.trans hepoch)
      · show _ = left ++ gap ++ result.1.records
        rw [henqueues.unchanged hother]
        exact hentries
      · show fromQueue peer.written = left.map (.stamp result.1.epoch)
        rw [henqueues.epoch]
        exact hwritten

/-- A change to the parts of the queue that order does not depend on. -/
theorem Peer.Ordered.congr (h : peer.Ordered) {other : Peer V}
    (hrecords : other.outbound.records = peer.outbound.records)
    (hepoch : other.outbound.epoch = peer.outbound.epoch) (hwritten : other.written = peer.written)
    (haccepted : other.accepted = peer.accepted) (hentries : other.entries = peer.entries)
    (hended : peer.Ended → other.Ended) : other.Ordered := by
  obtain ⟨left, gap, hlog, hqueue, hgap⟩ := h.leaves
  refine ⟨?_, ?_, left, gap, ?_, ?_, fun hlive => hgap fun h => hlive (hended h)⟩
  · rw [hepoch, hwritten]
    exact h.silent
  · rw [haccepted, hentries]
    exact h.merged
  · rw [hentries, hrecords]
    exact hlog
  · rw [hwritten, hepoch]
    exact hqueue

theorem Peer.Ordered.observe (h : peer.Ordered) (bootstrap : Option Nat) :
    (peer.step routing codec (.observe bootstrap)).Ordered := by
  rw [Peer.step]
  split
  · cases bootstrap with
    | none => exact h
    | some inputEpoch =>
        rw [Outbound.observe]
        by_cases hzero : inputEpoch = 0
        · rw [if_pos hzero]
          exact h.congr rfl rfl rfl rfl rfl fun _ => .inr rfl
        rw [if_neg hzero]
        by_cases hchanged : peer.outbound.epoch ≠ 0 ∧ peer.outbound.epoch ≠ inputEpoch
        · rw [if_pos hchanged]
          exact h.congr rfl rfl rfl rfl rfl fun _ => .inr rfl
        rw [if_neg hchanged]
        by_cases hepoch : peer.outbound.epoch = 0
        · have hwritten := h.silent hepoch
          obtain ⟨left, gap, hlog, hqueue, hgap⟩ := h.leaves
          refine ⟨fun _ => hwritten, h.merged, left, gap, hlog, ?_, hgap⟩
          rw [hwritten] at hqueue
          have hleft : left = [] := List.map_eq_nil_iff.mp hqueue.symm
          show fromQueue peer.written = _
          rw [hwritten, hleft]
          rfl
        · have hsame : peer.outbound.epoch = inputEpoch := by
            by_contra hne
            exact hchanged ⟨hepoch, hne⟩
          exact h.congr rfl hsame.symm rfl rfl rfl fun h => h
  · exact h

theorem Peer.Ordered.flush (h : peer.Ordered) (answers : Nat → Bool) :
    (peer.step routing codec (.flush answers)).Ordered := by
  rw [Peer.step]
  split
  · next hrunning =>
      obtain ⟨hclosed, hepoch, consumed, lost, hrecords, hqueue, hlost⟩ :=
        flush_spec routing codec answers peer.outbound
      obtain ⟨left, gap, hlog, hwritten, hgap⟩ := h.leaves
      have hsilent : peer.outbound.closed = true ∨ peer.outbound.epoch = 0 →
          (peer.outbound.flush routing codec answers).written = [] ∧
            (peer.outbound.flush routing codec answers).outbound = peer.outbound :=
        flush_silent routing codec answers
      generalize peer.outbound.flush routing codec answers = flushed at *
      by_cases hended : peer.outbound.closed = true ∨ peer.outbound.epoch = 0
      · obtain ⟨hnothing, hsame⟩ := hsilent hended
        apply h.congr
        · exact congrArg Outbound.records hsame
        · exact hepoch
        · show peer.written ++ flushed.written = _
          rw [hnothing, List.append_nil]
        · rfl
        · rfl
        · intro hpeer
          rcases hpeer with hclosed' | hstopped
          · exact .inl (hclosed.trans hclosed')
          · rw [hrunning] at hstopped
            cases hstopped
      · obtain ⟨hopen, hknown⟩ := not_or.mp hended
        have hnogap : gap = [] := by
          apply hgap
          rintro (hclosed' | hstopped)
          · exact hopen hclosed'
          · rw [hrunning] at hstopped
            cases hstopped
        subst hnogap
        refine ⟨fun hzero => absurd (hepoch.symm.trans hzero) hknown, h.merged, left ++ consumed,
          lost, ?_, ?_, ?_⟩
        · show peer.entries = _
          rw [hlog, hrecords]
          simp only [List.append_nil, List.append_assoc]
        · show fromQueue (peer.written ++ flushed.written) =
            (left ++ consumed).map (.stamp flushed.outbound.epoch)
          rw [fromQueue_append, hwritten, hqueue, hepoch, List.map_append]
        · intro hlive
          apply hlost
          cases hfailed : flushed.failed with
          | false => rfl
          | true =>
              refine absurd (.inr ?_) hlive
              show (!flushed.failed) = false
              rw [hfailed]
              rfl
  · exact h

theorem Peer.Ordered.close (h : peer.Ordered) :
    (peer.step routing codec .close).Ordered := by
  obtain ⟨left, gap, hlog, hqueue, -⟩ := h.leaves
  refine ⟨h.silent, h.merged, left, gap ++ peer.outbound.records, ?_, hqueue, ?_⟩
  · show peer.entries = left ++ (gap ++ peer.outbound.records) ++ []
    rw [hlog, List.append_nil, List.append_assoc]
  · intro hlive
    exact absurd (.inl rfl) hlive

theorem Peer.Ordered.step (h : peer.Ordered) (event : PeerEvent V) :
    (peer.step routing codec event).Ordered := by
  cases event with
  | requireOpen =>
      rw [Peer.step]
      split
      · exact h
      · exact h.congr rfl rfl rfl rfl rfl fun h => h
  | sendIntent intent reserved => exact h.enqueue (send_enqueues _ _ _)
  | sendInteraction interaction reserved => exact h.enqueue (send_enqueues _ _ _)
  | sendWorkspaceMouse mouse reserved => exact h.enqueue (sendWorkspaceMouse_enqueues _ _)
  | sendIntegrationControl receipt reserved => exact h.enqueue (send_enqueues _ _ _)
  | takeInteractionSubmission endpoint => exact h.congr rfl rfl rfl rfl rfl fun h => h
  | observeIntegrationPressure sequence => exact h.congr rfl rfl rfl rfl rfl fun h => h
  | awaitWritable =>
      rw [Peer.step]
      split
      · exact h
      · exact h.congr rfl rfl rfl rfl rfl fun h => h
  | observe bootstrap => exact h.observe bootstrap
  | flush answers => exact h.flush answers
  | stop => exact h.congr rfl rfl rfl rfl rfl fun _ => .inr rfl
  | close => exact h.close
  | dropReceiver =>
      rw [Peer.step]
      split
      · exact h
      · exact h.congr rfl rfl rfl rfl rfl fun h => h

theorem run_append (events more : List (PeerEvent V)) :
    Peer.run routing codec (events ++ more) =
      more.foldl (Peer.step routing codec) (Peer.run routing codec events) :=
  List.foldl_append

theorem run_ordered (routing : OutboundRouting) (codec : WireRecord V → Option (List UInt8))
    (events : List (PeerEvent V)) : (Peer.run routing codec events).Ordered := by
  induction events using List.reverseRecOn with
  | nil => exact .initial
  | append_singleton earlier event ih =>
      rw [run_append]
      exact ih.step event

theorem enqueue_fields {record : OutboundRecord V}
    {result : Outbound V × Except OutboundSendError SendDisposition} {replaced : Bool}
    (henqueues : Enqueues peer.outbound record result replaced) :
    (peer.enqueue record result replaced).outbound.epoch = peer.outbound.epoch ∧
      (peer.enqueue record result replaced).outbound.closed = peer.outbound.closed ∧
      (peer.enqueue record result replaced).running = peer.running ∧
      (peer.enqueue record result replaced).written = peer.written := by
  rw [Peer.enqueue]
  split
  · exact ⟨rfl, rfl, rfl, rfl⟩
  split
  · exact ⟨henqueues.epoch, henqueues.closed, rfl, rfl⟩
  · exact ⟨henqueues.epoch, henqueues.closed, rfl, rfl⟩

/-- An epoch that is known stays, and an ended connection writes nothing more. -/
theorem step_stable (routing : OutboundRouting) (codec : WireRecord V → Option (List UInt8))
    (peer : Peer V) (event : PeerEvent V) :
    (peer.outbound.epoch ≠ 0 →
        (peer.step routing codec event).outbound.epoch = peer.outbound.epoch) ∧
      (peer.Ended → (peer.step routing codec event).Ended ∧
        (peer.step routing codec event).written = peer.written) := by
  have hsend : ∀ {record : OutboundRecord V}
      {result : Outbound V × Except OutboundSendError SendDisposition} {replaced : Bool},
      Enqueues peer.outbound record result replaced →
      (peer.outbound.epoch ≠ 0 →
        (peer.enqueue record result replaced).outbound.epoch = peer.outbound.epoch) ∧
      (peer.Ended → (peer.enqueue record result replaced).Ended ∧
        (peer.enqueue record result replaced).written = peer.written) := by
    intro record result replaced henqueues
    obtain ⟨hepoch, hclosed, hrunning, hwritten⟩ := enqueue_fields henqueues
    refine ⟨fun _ => hepoch, fun hended => ⟨?_, hwritten⟩⟩
    rw [Peer.Ended, hclosed, hrunning]
    exact hended
  have hsame : ∀ {other : Peer V}, other.outbound.epoch = peer.outbound.epoch →
      other.outbound.closed = peer.outbound.closed → other.running = peer.running →
      other.written = peer.written →
      (peer.outbound.epoch ≠ 0 → other.outbound.epoch = peer.outbound.epoch) ∧
        (peer.Ended → other.Ended ∧ other.written = peer.written) := by
    intro other hepoch hclosed hrunning hwritten
    refine ⟨fun _ => hepoch, fun hended => ⟨?_, hwritten⟩⟩
    rw [Peer.Ended, hclosed, hrunning]
    exact hended
  cases event with
  | requireOpen =>
      rw [Peer.step]
      split
      · exact hsame rfl rfl rfl rfl
      · exact hsame rfl rfl rfl rfl
  | sendIntent intent reserved => exact hsend (send_enqueues _ _ _)
  | sendInteraction interaction reserved => exact hsend (send_enqueues _ _ _)
  | sendWorkspaceMouse mouse reserved => exact hsend (sendWorkspaceMouse_enqueues _ _)
  | sendIntegrationControl receipt reserved => exact hsend (send_enqueues _ _ _)
  | takeInteractionSubmission endpoint => exact hsame rfl rfl rfl rfl
  | observeIntegrationPressure sequence => exact hsame rfl rfl rfl rfl
  | awaitWritable =>
      rw [Peer.step]
      split
      · exact hsame rfl rfl rfl rfl
      · exact hsame rfl rfl rfl rfl
  | observe bootstrap =>
      rw [Peer.step]
      split
      · next hrunning =>
          cases bootstrap with
          | none => exact hsame rfl rfl rfl rfl
          | some inputEpoch =>
              rw [Outbound.observe]
              by_cases hzero : inputEpoch = 0
              · rw [if_pos hzero]
                exact ⟨fun _ => rfl, fun _ => ⟨.inr rfl, rfl⟩⟩
              rw [if_neg hzero]
              by_cases hchanged : peer.outbound.epoch ≠ 0 ∧ peer.outbound.epoch ≠ inputEpoch
              · rw [if_pos hchanged]
                exact ⟨fun _ => rfl, fun _ => ⟨.inr rfl, rfl⟩⟩
              rw [if_neg hchanged]
              refine ⟨fun hknown => ?_, fun hended => ⟨hended, rfl⟩⟩
              by_contra hne
              exact hchanged ⟨hknown, fun hequal => hne hequal.symm⟩
      · exact hsame rfl rfl rfl rfl
  | flush answers =>
      rw [Peer.step]
      split
      · next hrunning =>
          obtain ⟨hclosed, hepoch, -⟩ := flush_spec routing codec answers peer.outbound
          refine ⟨fun _ => hepoch, fun hended => ?_⟩
          rcases hended with hclosed' | hstopped
          · refine ⟨.inl (hclosed.trans hclosed'), ?_⟩
            show peer.written ++ (peer.outbound.flush routing codec answers).written = _
            rw [(flush_silent routing codec answers (.inl hclosed')).1, List.append_nil]
          · rw [hrunning] at hstopped
            cases hstopped
      · exact hsame rfl rfl rfl rfl
  | stop => exact ⟨fun _ => rfl, fun _ => ⟨.inr rfl, rfl⟩⟩
  | close => exact ⟨fun _ => rfl, fun _ => ⟨.inl rfl, rfl⟩⟩
  | dropReceiver =>
      rw [Peer.step]
      split
      · exact hsame rfl rfl rfl rfl
      · exact hsame rfl rfl rfl rfl

theorem run_stable (peer : Peer V) (more : List (PeerEvent V)) :
    (peer.outbound.epoch ≠ 0 →
        (more.foldl (Peer.step routing codec) peer).outbound.epoch = peer.outbound.epoch) ∧
      (peer.Ended → (more.foldl (Peer.step routing codec) peer).written = peer.written) := by
  induction more generalizing peer with
  | nil => exact ⟨fun _ => rfl, fun _ => rfl⟩
  | cons event rest ih =>
      obtain ⟨hepoch, hended⟩ := step_stable routing codec peer event
      obtain ⟨hepoch', hended'⟩ := ih (peer.step routing codec event)
      constructor
      · intro hknown
        have hsame := hepoch hknown
        exact (hepoch' (hsame ▸ hknown)).trans hsame
      · intro h
        obtain ⟨hended_next, hwritten⟩ := hended h
        exact (hended' hended_next).trans hwritten

/-! Records that are never replaced. -/

def OutboundRecord.essential : OutboundRecord V → Bool
  | .interaction _ => false
  | _ => true

/-- A mouse record or an annotation intent is queued whatever the queue holds. -/
theorem essential_accepted (routing : OutboundRouting)
    (codec : WireRecord V → Option (List UInt8)) (hentered : peer.entered ≠ 0) :
    (∀ mouse, (peer.step routing codec (.sendWorkspaceMouse mouse true)).accepted =
        peer.accepted ++ [.mouse mouse]) ∧
      ∀ intent, routing.annotationIntent intent.endpointId = true →
        (peer.step routing codec (.sendIntent intent true)).accepted =
          peer.accepted ++ [.intent intent] := by
  constructor
  · intro mouse
    rw [Peer.step, Peer.enqueue, if_neg hentered]
    rfl
  · intro intent hannotation
    have hresult : ∀ outbound : Outbound V,
        (outbound.send routing (.intent intent) false true).2 = .ok .queued := by
      intro outbound
      rw [Outbound.send]
      split
      · rfl
      · have hordered : Outbound.orderedDocument routing (.intent intent) = true := hannotation
        rw [hordered]
        rfl
    rw [Peer.step, Peer.send, Peer.enqueue, if_neg hentered, hresult]

theorem stamp_eq_mouse {epoch : Nat} {record : OutboundRecord V} {mouse : WorkspaceMouse V}
    (h : record.stamp epoch = .mouse mouse) : mouse.peerepoch = epoch := by
  cases record with
  | mouse earlier =>
      cases h
      rfl
  | wake => cases h
  | intent _ => cases h
  | interaction _ => cases h
  | integrationControl _ => cases h

/-- Until the connection ends, everything queued has left or waits, in the order it was queued;
what left carries the connection's epoch, and only interactions were ever replaced. -/
theorem outbound_in_order (routing : OutboundRouting)
    (codec : WireRecord V → Option (List UInt8)) (events : List (PeerEvent V)) :
    ((Peer.run routing codec events).outbound.epoch = 0 →
        (Peer.run routing codec events).written = []) ∧
      (∃ left gap, (Peer.run routing codec events).entries =
          left ++ gap ++ (Peer.run routing codec events).outbound.records ∧
        fromQueue (Peer.run routing codec events).written =
          left.map (.stamp (Peer.run routing codec events).outbound.epoch) ∧
        (¬ (Peer.run routing codec events).Ended → gap = [])) ∧
      (∀ mouse, .mouse mouse ∈ fromQueue (Peer.run routing codec events).written →
        mouse.peerepoch = (Peer.run routing codec events).outbound.epoch) ∧
      Merged Replaced (Peer.run routing codec events).accepted
        (Peer.run routing codec events).entries ∧
      (Peer.run routing codec events).entries.filter OutboundRecord.essential =
        (Peer.run routing codec events).accepted.filter OutboundRecord.essential ∧
      ((Peer.run routing codec events).entered ≠ 0 →
        (∀ mouse, (Peer.run routing codec (events ++ [.sendWorkspaceMouse mouse true])).accepted =
          (Peer.run routing codec events).accepted ++ [.mouse mouse]) ∧
        ∀ intent, routing.annotationIntent intent.endpointId = true →
          (Peer.run routing codec (events ++ [.sendIntent intent true])).accepted =
            (Peer.run routing codec events).accepted ++ [.intent intent]) ∧
      ∀ more, ((Peer.run routing codec events).outbound.epoch ≠ 0 →
          (Peer.run routing codec (events ++ more)).outbound.epoch =
            (Peer.run routing codec events).outbound.epoch) ∧
        ((Peer.run routing codec events).Ended →
          (Peer.run routing codec (events ++ more)).written =
            (Peer.run routing codec events).written) := by
  have h := run_ordered routing codec events
  refine ⟨h.silent, h.leaves, ?_, h.merged, ?_, ?_, ?_⟩
  · intro mouse hmouse
    obtain ⟨left, -, -, hwritten, -⟩ := h.leaves
    rw [hwritten] at hmouse
    obtain ⟨record, -, hstamped⟩ := List.mem_map.mp hmouse
    exact stamp_eq_mouse hstamped
  · apply h.merged.filter_eq
    intro prior next hreplaced
    obtain ⟨earlier, later, rfl, -⟩ := replaced_iff.mp hreplaced
    rfl
  · intro hentered
    have haccepted := essential_accepted routing codec hentered
    constructor
    · intro mouse
      rw [run_append]
      exact haccepted.1 mouse
    · intro intent hannotation
      rw [run_append]
      exact haccepted.2 intent hannotation
  · intro more
    rw [run_append]
    exact run_stable _ more

def plainRouting : OutboundRouting := ⟨[], fun _ => none, fun _ => false⟩

/-- A mouse record that is still queued when its connection closes is never written. -/
theorem mouse_discarded_at_close :
    (Peer.run plainRouting (fun _ => some [])
        [.requireOpen, .sendWorkspaceMouse ⟨ PresentationSourceKind.annotation, 0, ()⟩ true,
          .close]).accepted =
      [.mouse ⟨ PresentationSourceKind.annotation, 0, ()⟩] ∧
    ∀ more, (Peer.run plainRouting (fun _ => some [])
        ([.requireOpen, .sendWorkspaceMouse ⟨ PresentationSourceKind.annotation, 0, ()⟩ true,
          .close] ++ more)).written =
      [] := by
  refine ⟨rfl, ?_⟩
  intro more
  rw [run_append]
  exact (run_stable _ more).2 (.inl rfl)

end Mmltk.Transport
