import Mmltk.Training.RunHistory

namespace Mmltk.Training

open Mmltk.Foundation

/-! Pages of a growing history: every complete record once, in order, and an end. -/

variable {V : Type} {decode : List UInt8 → Except HistoryError (TrainingRecord V)} {run : String}

/-- A line that holds a record of the run, not longer than a record may be. -/
structure Recorded (decode : List UInt8 → Except HistoryError (TrainingRecord V)) (run : String)
    (line : List UInt8) : Prop where
  le : line.length ≤ kTrainingRecordBytes
  decoded : ∃ record, decode line = .ok record ∧ compatible run record = true

/-- Complete lines are records, and the line that is not complete is not too long for one. -/
structure History (decode : List UInt8 → Except HistoryError (TrainingRecord V)) (run : String)
    (contents : List UInt8) : Prop where
  recorded : ∀ line ∈ completeLines newline contents, Recorded decode run line
  le : (unfinished newline contents).length ≤ kTrainingRecordBytes

/-- The records of lines. -/
def Holds (decode : List UInt8 → Except HistoryError (TrainingRecord V))
    (records : List (TrainingRecord V)) (lines : List (List UInt8)) : Prop :=
  records.map Except.ok = lines.map decode

theorem Holds.append {first second : List (TrainingRecord V)} {lines more : List (List UInt8)}
    (h : Holds decode first lines) (hmore : Holds decode second more) :
    Holds decode (first ++ second) (lines ++ more) := by
  rw [Holds, List.map_append, List.map_append, h, hmore]

/-! A line of the stream. -/

theorem takeLine_line {taken line rest : List UInt8} (h : newline ∉ line)
    (hle : taken.length + line.length ≤ kTrainingRecordBytes) :
    takeLine taken (line ++ newline :: rest) = .ok (taken ++ line, true, rest) := by
  induction line generalizing taken with
  | nil => rw [List.nil_append, takeLine, if_pos rfl, List.append_nil]
  | cons byte line ih =>
      rw [List.mem_cons, not_or] at h
      rw [List.length_cons] at hle
      rw [List.cons_append, takeLine, if_neg (Ne.symm h.1), if_neg (by omega),
        ih h.2 (by rw [List.length_append, List.length_singleton]; omega), List.append_assoc]
      rfl

theorem takeLine_unfinished {taken tail : List UInt8} (h : newline ∉ tail)
    (hle : taken.length + tail.length ≤ kTrainingRecordBytes) :
    takeLine taken tail = .ok (taken ++ tail, false, []) := by
  induction tail generalizing taken with
  | nil => rw [takeLine, List.append_nil]
  | cons byte tail ih =>
      rw [List.mem_cons, not_or] at h
      rw [List.length_cons] at hle
      rw [takeLine, if_neg (Ne.symm h.1), if_neg (by omega),
        ih h.2 (by rw [List.length_append, List.length_singleton]; omega), List.append_assoc]
      rfl

/-- What does not end within the limit of a record is refused. -/
theorem takeLine_long {taken tail : List UInt8} (h : newline ∉ tail)
    (htaken : taken.length ≤ kTrainingRecordBytes)
    (hlong : kTrainingRecordBytes < taken.length + tail.length) :
    takeLine taken tail = .error (.runtime "training history record exceeds byte limit") := by
  induction tail generalizing taken with
  | nil =>
      rw [List.length_nil] at hlong
      omega
  | cons byte tail ih =>
      rw [List.mem_cons, not_or] at h
      rw [List.length_cons] at hlong
      rw [takeLine, if_neg (Ne.symm h.1)]
      rcases eq_or_ne taken.length kTrainingRecordBytes with hfull | hroom
      · rw [if_pos hfull]
      · rw [if_neg hroom]
        exact ih h.2 (by rw [List.length_append, List.length_singleton]; omega)
          (by rw [List.length_append, List.length_singleton]; omega)

/-! The records of one page. -/

/-- A page takes some of the lines, and stops for one of three reasons. -/
structure Taken (decode : List UInt8 → Except HistoryError (TrainingRecord V))
    (remaining consumed : Nat) (lines : List (List UInt8)) (page : TrainingHistoryPage V)
    (count : Nat) (after : TrainingHistoryPage V) (read : Nat) : Prop where
  count_le : count ≤ remaining
  length_le : count ≤ lines.length
  records : ∃ more, after.records = page.records ++ more ∧ Holds decode more (lines.take count)
  cursor : after.nextCursor = page.nextCursor + (joined newline (lines.take count)).length
  generation : after.generation = page.generation
  stopped : count = remaining ∨ count = lines.length ∨ pageBytes ≤ read
  started : 0 < remaining → consumed = 0 → lines ≠ [] → 0 < count

theorem readLoop_spec {remaining consumed : Nat} {lines : List (List UInt8)} {tail : List UInt8}
    (hlines : ∀ line ∈ lines, newline ∉ line ∧ Recorded decode run line)
    (htail : newline ∉ tail) (hle : tail.length ≤ kTrainingRecordBytes)
    (page : TrainingHistoryPage V) :
    ∃ count after read, readLoop decode run remaining consumed (joined newline lines ++ tail) page =
        .ok (after, read) ∧ Taken decode remaining consumed lines page count after read := by
  induction remaining generalizing consumed lines page with
  | zero =>
      exact ⟨0, page, consumed, rfl, Nat.le_refl _, Nat.zero_le _,
        ⟨[], (List.append_nil _).symm, rfl⟩, rfl, rfl, .inl rfl, nofun⟩
  | succ remaining ih =>
      have hstay : ∀ read, (0 = lines.length ∨ pageBytes ≤ read) →
          (consumed = 0 → lines = []) → Taken decode (remaining + 1) consumed lines page 0 page read :=
        fun read hstopped hstarted => ⟨Nat.zero_le _, Nat.zero_le _,
          ⟨[], (List.append_nil _).symm, rfl⟩, rfl, rfl, .inr hstopped,
          fun _ hzero hne => absurd (hstarted hzero) hne⟩
      rw [readLoop]
      split
      · next hfull =>
          refine ⟨0, page, consumed, rfl, hstay consumed (.inr hfull) fun hzero => ?_⟩
          rw [hzero] at hfull
          exact absurd hfull (by decide)
      · next hroom =>
          cases lines with
          | nil =>
              rw [joined_nil, List.nil_append,
                takeLine_unfinished htail (by rw [List.length_nil]; omega)]
              exact ⟨0, page, _, rfl, hstay _ (.inl rfl) fun _ => rfl⟩
          | cons line lines =>
              obtain ⟨⟨hline, hrecorded⟩, hrest⟩ := List.forall_mem_cons.mp hlines
              obtain ⟨record, hdecode, hcompatible⟩ := hrecorded.decoded
              have hlength := hrecorded.le
              rw [joined_cons, List.append_assoc, List.cons_append,
                takeLine_line hline (by rw [List.length_nil]; omega)]
              show ∃ count after read, (if pageBytes < consumed + line.length + 1 then _ else _) =
                Except.ok (after, read) ∧ _
              split
              · next hover =>
                  refine ⟨0, page, _, rfl, hstay _ (.inr (Nat.le_of_lt hover)) fun hzero => ?_⟩
                  rw [hzero] at hover
                  unfold pageBytes kTrainingRecordBytes at *
                  omega
              · next hfits =>
                  obtain ⟨count, after, read, hloop, htaken⟩ :=
                    (@ih (consumed + line.length + 1)) hrest
                      { page with
                        nextCursor := page.nextCursor + (line.length + 1)
                        records := page.records ++ [record] }
                  obtain ⟨more, hmore, hholds⟩ := htaken.records
                  refine ⟨count + 1, after, read, ?_, ?_⟩
                  · show (decode line >>= fun record => if !compatible run record then _ else _) = _
                    rw [hdecode]
                    show (if !compatible run record then _ else _) = _
                    rw [if_neg (by rw [hcompatible]; nofun)]
                    exact hloop
                  · refine ⟨Nat.succ_le_succ htaken.count_le, Nat.succ_le_succ htaken.length_le,
                      ⟨record :: more, ?_, ?_⟩, ?_, htaken.generation, ?_, fun _ _ _ => Nat.succ_pos _⟩
                    · rw [hmore, List.append_assoc]
                      rfl
                    · rw [Holds, List.take_succ_cons, List.map_cons, List.map_cons, hdecode, hholds]
                    · rw [htaken.cursor, List.take_succ_cons, joined_cons, List.length_append,
                        List.length_cons]
                      simp only
                      omega
                    · refine htaken.stopped.imp (congrArg (· + 1)) (Or.imp_left fun h => ?_)
                      rw [h, List.length_cons]

/-! A read at a boundary of records. -/

/-- The number of bytes of the first lines. -/
def boundary (contents : List UInt8) (count : Nat) : Nat :=
  (joined newline ((completeLines newline contents).take count)).length

/-- The bytes of the lines that are complete. -/
def completeBytes (contents : List UInt8) : Nat :=
  (joined newline (completeLines newline contents)).length

theorem split_boundary (contents : List UInt8) (count : Nat) :
    contents = joined newline ((completeLines newline contents).take count) ++
      (joined newline ((completeLines newline contents).drop count) ++
        unfinished newline contents) := by
  rw [← List.append_assoc, ← joined_append, List.take_append_drop, joined_completeLines]

theorem drop_boundary (contents : List UInt8) (count : Nat) :
    contents.drop (boundary contents count) =
      joined newline ((completeLines newline contents).drop count) ++
        unfinished newline contents :=
  (congrArg (List.drop _) (split_boundary contents count)).trans (List.drop_left' rfl)

theorem getElem?_boundary {contents : List UInt8} {count : Nat} (h : boundary contents count ≠ 0) :
    contents[boundary contents count - 1]? = some newline :=
  (congrArg (·[boundary contents count - 1]?) (split_boundary contents count)).trans
    (getElem?_joined _ h)

theorem boundary_add (contents : List UInt8) (count more : Nat) :
    boundary contents (count + more) = boundary contents count +
      (joined newline (((completeLines newline contents).drop count).take more)).length := by
  rw [boundary, List.take_add, joined_append, List.length_append, boundary]

theorem completeBytes_le_length (contents : List UInt8) : completeBytes contents ≤ contents.length := by
  conv_rhs => rw [← (@joined_completeLines _ _ newline) contents, List.length_append]
  exact Nat.le_add_right _ _

theorem completeBytes_mono {before after : List UInt8} (h : before <+: after) :
    completeBytes before ≤ completeBytes after := by
  obtain ⟨more, hmore⟩ := (@completeLines_mono _ _ newline) h
  rw [completeBytes, completeBytes, ← hmore, joined_append, List.length_append]
  exact Nat.le_add_right _ _

theorem boundary_length (contents : List UInt8) :
    boundary contents (completeLines newline contents).length = completeBytes contents := by
  rw [boundary, List.take_length, completeBytes]

/-- What one read delivers, from line `start` of the file to line `stop`. -/
structure Delivers (decode : List UInt8 → Except HistoryError (TrainingRecord V))
    (poll : Poll) (page : TrainingHistoryPage V) (start stop : Nat) : Prop where
  start_le : start ≤ stop
  stop_le : stop ≤ (completeLines newline poll.contents).length
  cursor : page.nextCursor = boundary poll.contents stop
  records : Holds decode page.records
    (((completeLines newline poll.contents).drop start).take (stop - start))
  progress : page.more = true → start < stop
  finished : page.more = false →
    completeBytes (poll.contents.take poll.identity.bytes) ≤ page.nextCursor

theorem read_spec {store : TrainRunStore} {poll : Poll} {start : Nat}
    (hrun : store.run = some run) (hhistory : History decode run poll.contents)
    (hcount : 0 < poll.count ∧ poll.count ≤ kTrainingHistoryPageSize)
    (hfile : poll.identity.device = store.metricsIdentity.device ∧
      poll.identity.inode = store.metricsIdentity.inode ∧
      store.metricsIdentity.bytes ≤ poll.identity.bytes)
    (hstart : start ≤ (completeLines newline poll.contents).length)
    (hcursor : boundary poll.contents start ≤ poll.identity.bytes)
    (hbytes : poll.identity.bytes < 2 ^ 63) :
    ∃ page stop, store.read decode poll.identity poll.contents
        ⟨store.generation, boundary poll.contents start, poll.count⟩ =
          .ok (page, { store with metricsIdentity := poll.identity }) ∧
      Delivers decode poll page start stop := by
  have hlines : ∀ line ∈ (completeLines newline poll.contents).drop start,
      newline ∉ line ∧ Recorded decode run line := fun line hline =>
    ⟨not_mem_completeLines (List.mem_of_mem_drop hline),
      hhistory.recorded line (List.mem_of_mem_drop hline)⟩
  obtain ⟨count, after, read, hloop, htaken⟩ := (@readLoop_spec _ _ _ poll.count 0) hlines (not_mem_unfinished poll.contents) hhistory.le
    { generation := store.generation, nextCursor := boundary poll.contents start, more := false,
      records := [] }
  rw [← drop_boundary] at hloop
  obtain ⟨records, hrecords, hholds⟩ := htaken.records
  rw [List.nil_append] at hrecords
  have hlength : after.records.length = count := by
    have hmap := congrArg List.length hholds
    rw [List.length_map, List.length_map, List.length_take, Nat.min_eq_left htaken.length_le]
      at hmap
    rw [hrecords, hmap]
  have hnext : after.nextCursor = boundary poll.contents (start + count) := by
    rw [htaken.cursor, boundary_add]
  have hle := htaken.length_le
  rw [List.length_drop] at hle
  refine ⟨{ after with
    more := after.nextCursor < poll.identity.bytes &&
      ((!after.records.isEmpty && pageBytes ≤ read) || after.records.length = poll.count) },
    start + count, ?_, ⟨Nat.le_add_right _ _, by omega, hnext, ?_, ?_, ?_⟩⟩
  · rw [TrainRunStore.read, hrun]
    simp only
    rw [if_neg (not_not_intro rfl), if_neg (by omega), if_neg (by omega), if_neg (by omega),
      if_neg fun h => h.2 (getElem?_boundary h.1), hloop]
    rfl
  · rw [Nat.add_sub_cancel_left]
    simp only [hrecords]
    exact hholds
  · intro hmore
    simp only [Bool.and_eq_true, Bool.or_eq_true, decide_eq_true_eq, hlength] at hmore
    rcases hmore.2 with ⟨hsome, -⟩ | hfull
    · have hne : after.records ≠ [] := by simpa using hsome
      have hpos := List.length_pos_of_ne_nil hne
      omega
    · omega
  · intro hmore
    have hcomplete : completeBytes (poll.contents.take poll.identity.bytes) ≤
        completeBytes poll.contents := completeBytes_mono (List.take_prefix _ _)
    simp only [Bool.and_eq_false_iff, Bool.or_eq_false_iff, decide_eq_false_iff_not, hlength] at hmore
    simp only
    rcases hmore with hpast | ⟨hshort, hfew⟩
    · refine Nat.le_trans (completeBytes_le_length _) (Nat.le_trans ?_ (Nat.not_lt.mp hpast))
      exact List.length_take_le _ _
    · -- Neither the records nor the bytes of the page were used up, so the lines were.
      have hall : count = ((completeLines newline poll.contents).drop start).length := by
        rcases htaken.stopped with hwanted | hlast | hfull
        · exact absurd hwanted hfew
        · exact hlast
        · have hnone : after.records = [] := by
            rcases hshort with hempty | hless
            · simpa using hempty
            · exact absurd hfull hless
          rw [hnone, List.length_nil] at hlength
          refine hlength ▸ (Nat.eq_zero_of_not_pos fun hpos => ?_).symm
          have hstarted := htaken.started hcount.1 rfl (List.ne_nil_of_length_pos hpos)
          omega
      rw [List.length_drop] at hall
      rw [hnext, show start + count = (completeLines newline poll.contents).length by omega,
        boundary_length]
      exact hcomplete

/-! Runs of reads while the file grows. -/

/-- The file of a read is the one before with more at its end, and was sampled in between. -/
structure Poll.Follows (poll : Poll) (identity : FileSnapshot) (contents : List UInt8) : Prop where
  device : poll.identity.device = identity.device
  inode : poll.identity.inode = identity.inode
  bytes_le : identity.bytes ≤ poll.identity.bytes
  sampled : contents.length ≤ poll.identity.bytes
  appended : contents <+: poll.contents

def Appending (identity : FileSnapshot) (contents : List UInt8) : List Poll → Prop
  | [] => True
  | poll :: polls => poll.Follows identity contents ∧ Appending poll.identity poll.contents polls

/-- A count of records there can be on a page, and a size there can be of a file. -/
structure Poll.Admitted (poll : Poll) : Prop where
  count_pos : 0 < poll.count
  count_le : poll.count ≤ kTrainingHistoryPageSize
  representable : poll.identity.bytes < 2 ^ 63

theorem boundary_prefix {before after : List UInt8} {count : Nat} (h : before <+: after)
    (hcount : count ≤ (completeLines newline before).length) :
    boundary after count = boundary before count := by
  obtain ⟨more, hmore⟩ := (@completeLines_mono _ _ newline) h
  rw [boundary, boundary, ← hmore, List.take_append_of_le_length hcount]

/-- Each page goes on where the one before ended. -/
inductive Pages (decode : List UInt8 → Except HistoryError (TrainingRecord V)) :
    Nat → List Poll → List (TrainingHistoryPage V) → Nat → Prop
  | nil (start : Nat) : Pages decode start [] [] start
  | cons {poll : Poll} {polls : List Poll} {page : TrainingHistoryPage V}
      {pages : List (TrainingHistoryPage V)} {start middle stop : Nat}
      (head : Delivers decode poll page start middle) (tail : Pages decode middle polls pages stop) :
      Pages decode start (poll :: polls) (page :: pages) stop

theorem follow_spec {store : TrainRunStore} {contents : List UInt8} {polls : List Poll} {start : Nat}
    (hrun : store.run = some run) (happending : Appending store.metricsIdentity contents polls)
    (hadmitted : ∀ poll ∈ polls, poll.Admitted)
    (hhistory : ∀ poll ∈ polls, History decode run poll.contents)
    (hstart : start ≤ (completeLines newline contents).length) :
    ∃ pages stop, follow decode store (boundary contents start) polls = .ok pages ∧
      Pages decode start polls pages stop := by
  induction polls generalizing store contents start with
  | nil => exact ⟨[], start, rfl, .nil start⟩
  | cons poll polls ih =>
      obtain ⟨hfollows, happending⟩ := happending
      obtain ⟨hcount, hadmitted⟩ := List.forall_mem_cons.mp hadmitted
      obtain ⟨hrecords, hhistory⟩ := List.forall_mem_cons.mp hhistory
      have hlines := ((@completeLines_mono _ _ newline) hfollows.appended).length_le
      have hboundary := boundary_prefix hfollows.appended hstart
      have hcursor : boundary poll.contents start ≤ poll.identity.bytes := by
        refine Nat.le_trans ?_ hfollows.sampled
        have hlength := congrArg List.length (split_boundary contents start)
        rw [List.length_append] at hlength
        rw [hboundary, boundary]
        omega
      obtain ⟨page, middle, hread, hdelivers⟩ := read_spec hrun hrecords
        ⟨hcount.count_pos, hcount.count_le⟩ ⟨hfollows.device, hfollows.inode, hfollows.bytes_le⟩
        (Nat.le_trans hstart hlines) hcursor hcount.representable
      obtain ⟨pages, stop, hrest, hpages⟩ :=
        (@ih { store with metricsIdentity := poll.identity }) hrun happending hadmitted
          hhistory hdelivers.stop_le
      refine ⟨page :: pages, stop, ?_, .cons hdelivers hpages⟩
      rw [follow, ← hboundary, hread]
      show (follow decode _ page.nextCursor polls >>= _) = _
      rw [hdelivers.cursor, hrest]
      rfl

/-- The file as it was read last. -/
def lastContents (contents : List UInt8) : List Poll → List UInt8
  | [] => contents
  | poll :: polls => lastContents poll.contents polls

def lastCursor (cursor : Nat) : List (TrainingHistoryPage V) → Nat
  | [] => cursor
  | page :: pages => lastCursor page.nextCursor pages

theorem lastContents_start {identity : FileSnapshot} {contents : List UInt8} {polls : List Poll}
    (h : Appending identity contents polls) : contents <+: lastContents contents polls := by
  induction polls generalizing identity contents with
  | nil => exact List.prefix_rfl
  | cons poll polls ih => exact h.1.appended.trans (ih h.2)

namespace Pages

variable {start stop : Nat} {polls : List Poll} {pages : List (TrainingHistoryPage V)}

theorem start_le (h : Pages decode start polls pages stop) : start ≤ stop := by
  induction h with
  | nil => exact Nat.le_refl _
  | cons head _ ih => exact Nat.le_trans head.start_le ih

theorem finished (h : Pages decode start polls pages stop) :
    List.Forall₂ (fun poll page => page.more = false →
      completeBytes (poll.contents.take poll.identity.bytes) ≤ page.nextCursor) polls pages := by
  induction h with
  | nil => exact .nil
  | cons head _ ih => exact .cons head.finished ih

/-- The pages of a run hold the lines of the file from where it started to where it is. -/
theorem delivered {identity : FileSnapshot} {contents : List UInt8}
    (h : Pages decode start polls pages stop) (happending : Appending identity contents polls)
    (hstart : start ≤ (completeLines newline contents).length) :
    stop ≤ (completeLines newline (lastContents contents polls)).length ∧
      lastCursor (boundary contents start) pages = boundary (lastContents contents polls) stop ∧
      Holds decode (pages.flatMap TrainingHistoryPage.records)
        (((completeLines newline (lastContents contents polls)).drop start).take
          (stop - start)) := by
  induction h generalizing identity contents with
  | nil start =>
      refine ⟨hstart, rfl, ?_⟩
      rw [Nat.sub_self, List.take_zero]
      rfl
  | @cons poll polls page pages start middle stop head tail ih =>
      obtain ⟨hstop, hlast, hholds⟩ := ih happending.2 head.stop_le
      refine ⟨hstop, ?_, ?_⟩
      · rw [lastCursor, head.cursor, hlast]
        rfl
      · have hmiddle := head.stop_le
        have hle := tail.start_le
        have hfirst := head.start_le
        obtain ⟨more, hmore⟩ :=
          (@completeLines_mono _ _ newline) (lastContents_start happending.2)
        have hpage : ((completeLines newline poll.contents).drop start).take (middle - start) =
            ((completeLines newline (lastContents poll.contents polls)).drop start).take
              (middle - start) := by
          rw [← hmore, List.drop_append_of_le_length (by omega),
            List.take_append_of_le_length (by rw [List.length_drop]; omega)]
        have hrecords := head.records
        rw [hpage] at hrecords
        have hsplit : stop - start = middle - start + (stop - middle) := by omega
        rw [List.flatMap_cons, lastContents, hsplit, List.take_add, List.drop_drop,
          Nat.add_sub_of_le hfirst]
        exact hrecords.append hholds

/-- Where every page says there is more, every page took a line. -/
theorem length_le (h : Pages decode start polls pages stop)
    (hmore : ∀ page ∈ pages, page.more = true) : start + polls.length ≤ stop := by
  induction h with
  | nil => exact Nat.le_refl _
  | cons head _ ih =>
      obtain ⟨hpage, hpages⟩ := List.forall_mem_cons.mp hmore
      have hprogress := head.progress hpage
      have hrest := ih hpages
      rw [List.length_cons]
      omega

theorem split {later : List Poll} (h : Pages decode start (polls ++ later) pages stop) :
    ∃ middle, Pages decode middle later (pages.drop polls.length) stop := by
  induction polls generalizing start pages with
  | nil => exact ⟨start, h⟩
  | cons poll polls ih =>
      cases h with
      | cons head tail => exact ih tail

theorem stop_le {contents : List UInt8} (h : Pages decode start polls pages stop)
    (hne : polls ≠ []) (hsame : ∀ poll ∈ polls, poll.contents = contents) :
    stop ≤ (completeLines newline contents).length := by
  induction h with
  | nil => exact absurd rfl hne
  | @cons poll polls page pages start middle stop head tail ih =>
      obtain ⟨rfl, hpolls⟩ := List.forall_mem_cons.mp hsame
      cases polls with
      | nil =>
          cases tail
          exact head.stop_le
      | cons next polls => exact ih nofun hpolls

/-- Reads of a file that does not grow come to a page that says there is no more. -/
theorem exists_finished {contents : List UInt8} (h : Pages decode start polls pages stop)
    (hsame : ∀ poll ∈ polls, poll.contents = contents)
    (hlong : (completeLines newline contents).length < polls.length) :
    ∃ page ∈ pages, page.more = false := by
  by_contra hnone
  have hmore : ∀ page ∈ pages, page.more = true := fun page hpage => by
    cases hpageMore : page.more with
    | true => rfl
    | false => exact absurd ⟨page, hpage, hpageMore⟩ hnone
  have hlength := h.length_le hmore
  have hstop := h.stop_le (List.ne_nil_of_length_pos (Nat.zero_lt_of_lt hlong)) hsame
  omega

end Pages

/-- A growing history is delivered once and in order, and is followed to its end. -/
theorem follow_pages (store : TrainRunStore) (polls : List Poll) (hrun : store.run = some run)
    (happending : Appending store.metricsIdentity [] polls)
    (hadmitted : ∀ poll ∈ polls, poll.Admitted)
    (hhistory : ∀ poll ∈ polls, History decode run poll.contents) :
    ∃ pages, follow decode store 0 polls = .ok pages ∧
      (∃ count ≤ (completeLines newline (lastContents [] polls)).length,
        lastCursor 0 pages = boundary (lastContents [] polls) count ∧
        Holds decode (pages.flatMap TrainingHistoryPage.records)
          ((completeLines newline (lastContents [] polls)).take count)) ∧
      List.Forall₂ (fun poll page => page.more = false →
        completeBytes (poll.contents.take poll.identity.bytes) ≤ page.nextCursor) polls pages ∧
      ∀ earlier later, polls = earlier ++ later →
        (∀ poll ∈ later, poll.contents = lastContents [] polls) →
        (completeLines newline (lastContents [] polls)).length < later.length →
          ∃ page ∈ pages.drop earlier.length, page.more = false := by
  obtain ⟨pages, stop, hfollow, hpages⟩ :=
    follow_spec hrun happending hadmitted hhistory (Nat.zero_le _)
  obtain ⟨hstop, hcursor, hholds⟩ := hpages.delivered happending (Nat.zero_le _)
  rw [List.drop_zero, Nat.sub_zero] at hholds
  refine ⟨pages, hfollow, ⟨stop, hstop, hcursor, hholds⟩, hpages.finished, ?_⟩
  rintro earlier later rfl hsame hlong
  obtain ⟨middle, hlater⟩ := hpages.split
  exact hlater.exists_finished hsame hlong

/-! A history of records of one byte. -/

def decodeOne (line : List UInt8) : Except HistoryError (TrainingRecord Unit) :=
  if line = [49] then .ok ⟨kTrainingRunFormat, "run", "attempt", ()⟩
  else .error (.runtime "invalid record")

def openedRun : TrainRunStore := ⟨1, some "run", ⟨0, 0, 0⟩⟩

theorem recorded_one : Recorded decodeOne "run" [49] :=
  ⟨by decide, ⟨_, rfl, by decide⟩⟩

/-- A record that is appended while it is read, and another after it. -/
def growingPolls : List Poll :=
  [⟨2, ⟨0, 0, 0⟩, [49]⟩, ⟨2, ⟨0, 0, 1⟩, [49, 10, 49]⟩, ⟨1, ⟨0, 0, 4⟩, [49, 10, 49, 10]⟩]

theorem follow_pages_growing : ∃ pages, follow decodeOne openedRun 0 growingPolls = .ok pages ∧
    ∃ count ≤ 2, lastCursor 0 pages = boundary [49, 10, 49, 10] count ∧
      Holds decodeOne (pages.flatMap TrainingHistoryPage.records)
        ((completeLines newline [49, 10, 49, 10]).take count) := by
  have happending : Appending openedRun.metricsIdentity [] growingPolls :=
    ⟨⟨rfl, rfl, by decide, by decide, by decide⟩, ⟨rfl, rfl, by decide, by decide, by decide⟩,
      ⟨rfl, rfl, by decide, by decide, by decide⟩, trivial⟩
  have hadmitted : ∀ poll ∈ growingPolls, poll.Admitted := by
    refine List.forall_mem_cons.mpr ⟨⟨by decide, by decide, by decide⟩,
      List.forall_mem_cons.mpr ⟨⟨by decide, by decide, by decide⟩,
        List.forall_mem_singleton.mpr ⟨by decide, by decide, by decide⟩⟩⟩
  have hlines : ∀ poll ∈ growingPolls, ∀ line ∈ completeLines newline poll.contents,
      line = [49] := by decide
  have hunfinished : ∀ poll ∈ growingPolls,
      (unfinished newline poll.contents).length ≤ kTrainingRecordBytes := by decide
  have hhistory : ∀ poll ∈ growingPolls, History decodeOne "run" poll.contents :=
    fun poll hpoll => ⟨fun line hline => hlines poll hpoll line hline ▸ recorded_one,
      hunfinished poll hpoll⟩
  obtain ⟨pages, hfollow, hdelivered, -⟩ :=
    follow_pages openedRun growingPolls rfl happending hadmitted hhistory
  exact ⟨pages, hfollow, hdelivered⟩

/-- A page that asks for more than the records that are complete meets what comes after them. -/
theorem follow_long {tail : List UInt8} (htail : newline ∉ tail)
    (hlong : kTrainingRecordBytes < tail.length) :
    follow decodeOne openedRun 0
        [⟨2, ⟨0, 0, (49 :: newline :: tail).length⟩, 49 :: newline :: tail⟩] =
      .error (.runtime "training history record exceeds byte limit") := by
  have hfirst : takeLine [] (49 :: newline :: tail) = .ok ([49], true, tail) :=
    (@takeLine_line [] [49]) (by decide) (by decide)
  have hsecond := (@takeLine_long []) htail (Nat.zero_le _) (by
    rw [List.length_nil, Nat.zero_add]
    exact hlong)
  have hloop : ∀ page, readLoop decodeOne "run" 2 0 (49 :: newline :: tail) page =
      .error (.runtime "training history record exceeds byte limit") := by
    intro page
    rw [readLoop, if_neg (by decide), hfirst]
    show (readLoop decodeOne "run" 1 2 _ _) = _
    rw [readLoop, if_neg (by decide), hsecond]
    rfl
  have hread : openedRun.read decodeOne ⟨0, 0, (49 :: newline :: tail).length⟩
      (49 :: newline :: tail) ⟨openedRun.generation, 0, 2⟩ =
        .error (.runtime "training history record exceeds byte limit") := by
    rw [TrainRunStore.read, show openedRun.run = some "run" from rfl]
    simp only
    rw [if_neg (not_not_intro rfl), if_neg (by decide), if_neg, if_neg, if_neg fun h => h.1 rfl,
      List.drop_zero, hloop]
    · rfl
    · omega
    · exact fun h => h.elim (· rfl) fun h => h.elim (· rfl) (Nat.not_lt_zero _)
  rw [follow, hread]
  rfl

theorem appending_long (tail : List UInt8) : Appending openedRun.metricsIdentity []
    [⟨2, ⟨0, 0, (49 :: newline :: tail).length⟩, 49 :: newline :: tail⟩] :=
  ⟨⟨rfl, rfl, Nat.zero_le _, Nat.zero_le _, List.nil_prefix⟩, trivial⟩

theorem completeLines_long {tail : List UInt8} (htail : newline ∉ tail) :
    completeLines newline (49 :: newline :: tail) = [[49]] := by
  have hline := (@completeLines_line _ _ newline [49] tail) (by decide)
  rwa [completeLines_of_not_mem htail] at hline

/-- Bytes without a newline, one more than a record may have. -/
def overlongTail : List UInt8 := List.replicate (kTrainingRecordBytes + 1) 49

/-- The first record is complete, and the page that should deliver it is refused. -/
theorem follow_overlongTail :
    completeLines newline (49 :: newline :: overlongTail) = [[49]] ∧
      Recorded decodeOne "run" [49] ∧
      Appending openedRun.metricsIdentity []
        [⟨2, ⟨0, 0, (49 :: newline :: overlongTail).length⟩, 49 :: newline :: overlongTail⟩] ∧
      follow decodeOne openedRun 0
          [⟨2, ⟨0, 0, (49 :: newline :: overlongTail).length⟩, 49 :: newline :: overlongTail⟩] =
        .error (.runtime "training history record exceeds byte limit") := by
  have htail : newline ∉ overlongTail :=
    fun h => absurd (List.eq_of_mem_replicate h) (by decide)
  have hlong : kTrainingRecordBytes < overlongTail.length := by
    rw [overlongTail, List.length_replicate]
    exact Nat.lt_succ_self _
  exact ⟨completeLines_long htail, recorded_one, appending_long overlongTail,
    follow_long htail hlong⟩

end Mmltk.Training
