import Mmltk.Benchmark.AnnotationCache

namespace Mmltk.Benchmark.Annotations

/-! What one attempt does to each split. -/

variable {I D E : Type} {digest : I → Split → Nat → D} {archive : I}
  {delivery : Nat} {split : Split → SplitState I D} {which : Split}

/-- An index built from the archive of this delivery, or under the name of the initial one. -/
def FromArchive (archive : I) (delivery : Nat) (index : Index I D) : Prop :=
  index.source = some (.extracted delivery) ∨
    delivery = 0 ∧ (index.source = some (.recorded archive) ∨ index.source = some .stored)

/-- After a repair, no file of a missing split is left. -/
def Cleared (split : Split → SplitState I D) : Prop :=
  ∀ which, (split which).missing = true → (split which).files = .removed

namespace Extraction

/-- A member has an identity only from this archive, and none once it has failed. -/
structure Sought (archive : I) (delivery : Nat) (files : SplitFiles I D) (member : Member I D) :
    Prop where
  source : ∀ identity source, member.identity = some (identity, source) →
    source = .extracted delivery ∨ files ≠ .removed ∧ source = .recorded archive
  failed : member.failed = true → member.identity = none

structure Walked (archive : I) (delivery : Nat) (split : Split → SplitState I D)
    (extraction : Extraction I D) : Prop where
  sought : ∀ which, (split which).missing = true →
    ∃ member, extraction.members which = some member ∧
      Sought archive delivery (split which).files member
  spared : ∀ which, (split which).missing = false →
    extraction.members which = none ∧ extraction.files which = (split which).files
  normalized : ∀ which, (extraction.files which).normalized = (split which).files.normalized

variable {extraction : Extraction I D} {member : Member I D}

theorem Walked.begin [DecidableEq I] (archive : I) (delivery : Nat) (split : Split → SplitState I D) :
    Walked archive delivery split (begin archive split) where
  sought which hmissing := by
    refine ⟨_, if_pos hmissing, ?_, fun hfailed => nomatch hfailed⟩
    intro identity source hidentity
    obtain ⟨cached, hcached, hpair⟩ := Option.map_eq_some_iff.mp hidentity
    cases hpair
    refine .inr ⟨?_, rfl⟩
    intro hremoved
    rw [SplitState.cachedIdentity, hremoved] at hcached
    cases hcached
  spared which hmissing := by
    refine ⟨if_neg ?_, rfl⟩
    rw [hmissing]
    exact Bool.false_ne_true
  normalized which := rfl

theorem Walked.missing (h : Walked archive delivery split extraction)
    (hmember : extraction.members which = some member) : (split which).missing = true := by
  cases hmissing : (split which).missing with
  | true => rfl
  | false =>
      rw [(h.spared which hmissing).1] at hmember
      cases hmember

theorem Walked.holds (h : Walked archive delivery split extraction)
    (hmember : extraction.members which = some member) :
    Sought archive delivery (split which).files member := by
  obtain ⟨sought, hsought, hholds⟩ := h.sought which (h.missing hmember)
  rw [hmember] at hsought
  cases hsought
  exact hholds

theorem Walked.set (h : Walked archive delivery split extraction)
    (hmissing : (split which).missing = true)
    (hmember : Sought archive delivery (split which).files member) :
    Walked archive delivery split (extraction.set which member) where
  sought other hother := by
    cases decEq other which with
    | isTrue hsame =>
        subst hsame
        exact ⟨member, Function.update_self .., hmember⟩
    | isFalse hne =>
        obtain ⟨sought, hsought, hholds⟩ := h.sought other hother
        exact ⟨sought, (Function.update_of_ne hne _ _).trans hsought, hholds⟩
  spared other hother := by
    have hne : other ≠ which := by
      intro hsame
      rw [hsame, hmissing] at hother
      cases hother
    exact ⟨(Function.update_of_ne hne _ _).trans (h.spared other hother).1,
      (h.spared other hother).2⟩
  normalized := h.normalized

theorem Walked.complete (h : Walked archive delivery split extraction)
    (hmissing : (split which).missing = true)
    (hmember : Sought archive delivery (split which).files member) :
    Walked archive delivery split (extraction.complete which member) where
  sought := (h.set hmissing hmember).sought
  spared := (h.set hmissing hmember).spared
  normalized := h.normalized

theorem Walked.extract (h : Walked archive delivery split extraction)
    (hmissing : (split which).missing = true) (hfailed : member.failed = false) (bytes : Nat) :
    Walked archive delivery split
      (extraction.extract digest archive delivery which member bytes) := by
  refine Walked.complete ⟨h.sought, ?_, ?_⟩ hmissing ⟨?_, ?_⟩
  · intro other hother
    have hne : other ≠ which := by
      intro hsame
      rw [hsame, hmissing] at hother
      cases hother
    exact ⟨(h.spared other hother).1,
      (Function.update_of_ne hne _ _).trans (h.spared other hother).2⟩
  · intro other
    cases decEq other which with
    | isTrue hsame =>
        subst hsame
        simp only [Function.update_self]
        exact h.normalized other
    | isFalse hne =>
        simp only [Function.update_of_ne hne]
        exact h.normalized other
  · intro identity source hidentity
    cases hidentity
    exact .inl rfl
  · intro hholds
    rw [hfailed] at hholds
    cases hholds

theorem Walked.visit (h : Walked archive delivery split extraction) (position : Nat)
    (entry : Entry E) :
    Walked archive delivery split
      (extraction.visit digest archive delivery position entry).1 := by
  rw [Extraction.visit]
  split
  · exact h
  next which hentry =>
  split
  · exact h
  next member hmember =>
  have hmissing := h.missing hmember
  have hsought := h.holds hmember
  have hmarked : Sought archive delivery (split which).files
      { member with encountered := some position } := ⟨hsought.source, hsought.failed⟩
  split
  · exact h
  dsimp only
  split
  · exact h.set hmissing hmarked
  next hopen =>
  rw [Bool.or_eq_true, not_or, Option.not_isSome_iff_eq_none] at hopen
  have hfails : Sought archive delivery (split which).files
      { member with encountered := some position, failed := true } :=
    ⟨hsought.source, fun _ => hopen.1⟩
  split
  · exact h.complete hmissing hfails
  · exact h.complete hmissing hfails
  · exact h.set hmissing hmarked
  · have hlive : ({ member with encountered := some position } : Member I D).failed = false :=
      (Bool.not_eq_true _).mp hopen.2
    exact h.extract hmissing hlive _

theorem Walked.walk (h : Walked archive delivery split extraction) (ending : Option (Fault E))
    (position : Nat) (entries : List (Entry E)) :
    Walked archive delivery split
      (extraction.walk digest archive delivery ending position entries).1 := by
  induction entries generalizing extraction position with
  | nil => exact h
  | cons entry rest ih =>
      rw [Extraction.walk]
      have hvisit : Walked archive delivery split
          (extraction.visit digest archive delivery position entry).1 := h.visit position entry
      split
      · exact h
      split
      next stopped fault heq =>
        rw [heq] at hvisit
        exact hvisit
      next next heq =>
        rw [heq] at hvisit
        exact ih hvisit (position + 1)

/-- Whatever stops the walk. If nothing does, a member without an identity has failed. -/
theorem run_walked [DecidableEq I] (split : Split → SplitState I D) (attempt : Attempt I E) :
    Walked archive delivery split (run digest archive delivery split attempt).1 ∧
      ((run digest archive delivery split attempt).2 = none →
        ∀ which member, (run digest archive delivery split attempt).1.members which = some member →
          member.identity = none → member.failed = true) := by
  have hwalk : Walked archive delivery split
      ((begin archive split).walk digest archive delivery attempt.ending 0 attempt.entries).1 :=
    (Walked.begin archive delivery split).walk attempt.ending 0 attempt.entries
  rw [run]
  split
  next stopped fault heq =>
    rw [heq] at hwalk
    exact ⟨hwalk, fun hnone => nomatch hnone⟩
  next ended heq =>
    rw [heq] at hwalk
    refine ⟨⟨?_, ?_, hwalk.normalized⟩, fun _ => ?_⟩
    · intro which hmissing
      obtain ⟨member, hmember, hsought⟩ := hwalk.sought which hmissing
      refine ⟨absent member, congrArg (Option.map absent) hmember, ?_⟩
      rw [absent]
      split
      next habsent =>
        rw [Bool.and_eq_true, Option.isNone_iff_eq_none] at habsent
        exact ⟨hsought.source, fun _ => habsent.1⟩
      · exact hsought
    · intro which hmissing
      exact ⟨congrArg (Option.map absent) (hwalk.spared which hmissing).1,
        (hwalk.spared which hmissing).2⟩
    · intro which member hmember hidentity
      obtain ⟨before, -, rfl⟩ := Option.map_eq_some_iff.mp hmember
      rw [absent] at hidentity ⊢
      split
      · rfl
      next hkept =>
        rw [if_neg hkept] at hidentity
        rw [hidentity] at hkept
        simpa using hkept

end Extraction

/-- The sink has not heard of it. -/
structure Unbuilt (before after : SplitState I D) : Prop where
  admission : after.admission = before.admission
  index : after.index = none
  generation : after.generation = before.generation
  published : after.published = before.published

/-- The sink has received the new index in the generation that the split is in. -/
structure Built (archive : I) (delivery : Nat) (before after : SplitState I D) : Prop where
  admission : after.admission = before.admission
  generation : after.generation = before.generation
  built : ∃ index, after.index = some index ∧ FromArchive archive delivery index ∧
    after.published = before.published ++ [⟨before.generation, true, some index⟩]

theorem SplitState.index_eq_none {state : SplitState I D} (h : state.missing = true) :
    state.index = none := by
  rw [SplitState.missing, Bool.and_eq_true, Option.isNone_iff_eq_none] at h
  exact h.2

theorem SplitState.build_spec [DecidableEq D] {before state : SplitState I D}
    (hadmission : state.admission = before.admission) (hindex : state.index = none)
    (hgeneration : state.generation = before.generation)
    (hpublished : state.published = before.published) {identity : D} {source : Source I}
    (parsed : Except (Fault E) Unit)
    (hsource : FromArchive archive delivery ⟨identity, some source⟩)
    (hstored : state.files.normalized = some ⟨identity, true⟩ → delivery = 0) :
    (state.build identity source parsed).2 = .ok () ∧
        Built archive delivery before (state.build identity source parsed).1 ∨
      (state.build identity source parsed).2 ≠ .ok () ∧
        Unbuilt before (state.build identity source parsed).1 := by
  have hopen : ¬ state.index.isSome := by
    rw [hindex]
    exact Bool.false_ne_true
  have hinstalls : ∀ source, FromArchive archive delivery (⟨identity, some source⟩ : Index I D) →
      Built archive delivery before (state.install identity source) := fun source hfrom =>
    ⟨hadmission, hgeneration, _, rfl, hfrom, by
      rw [← hgeneration, ← hpublished]
      rfl⟩
  unfold SplitState.build
  rw [if_neg hopen]
  split
  next hhit => exact .inl ⟨rfl, hinstalls _ (.inr ⟨hstored hhit, .inr rfl⟩)⟩
  cases parsed with
  | ok value => exact .inl ⟨rfl, hinstalls _ hsource⟩
  | error fault =>
      exact .inr ⟨fun herror => (nomatch herror), hadmission, hindex, hgeneration, hpublished⟩

namespace Settling

variable {settling : Settling I D} {extraction : Extraction I D}

theorem parse_spared [DecidableEq D]
    (h : Extraction.Walked archive delivery settling.cache.split extraction)
    (hmissing : (settling.cache.split which).missing = false) (attempt : Attempt I E) :
    settling.parse extraction attempt which = (settling.cache.split which, none) := by
  rw [parse, (h.spared which hmissing).1, (h.spared which hmissing).2]
  rfl

/-- A split that the attempt looks for is built, or stays missing. -/
theorem parse_spec [DecidableEq D]
    (h : Extraction.Walked archive delivery settling.cache.split extraction)
    (hcleared : delivery ≠ 0 → Cleared settling.cache.split)
    (hmissing : (settling.cache.split which).missing = true) (attempt : Attempt I E) :
    (settling.parse extraction attempt which).2 = some (.ok ()) ∧
        Built archive delivery (settling.cache.split which)
          (settling.parse extraction attempt which).1 ∨
      (settling.parse extraction attempt which).2 ≠ some (.ok ()) ∧
        Unbuilt (settling.cache.split which) (settling.parse extraction attempt which).1 := by
  have hindex := SplitState.index_eq_none hmissing
  rw [parse]
  split
  · exact .inr ⟨fun hsome => (nomatch hsome), rfl, hindex, rfl, rfl⟩
  next identity source hidentity =>
  obtain ⟨member, hmember, hsome⟩ := Option.bind_eq_some_iff.mp hidentity
  have hnothing : (settling.cache.split which).files ≠ .removed → delivery = 0 := by
    intro hfiles
    by_contra hdelivery
    exact hfiles (hcleared hdelivery which hmissing)
  have hfrom : FromArchive archive delivery (⟨identity, some source⟩ : Index I D) := by
    cases (h.holds hmember).source identity source hsome with
    | inl hextracted => exact .inl (congrArg some hextracted)
    | inr hrecorded =>
        exact .inr ⟨hnothing hrecorded.1, .inl (congrArg some hrecorded.2)⟩
  have hstored : (extraction.files which).normalized = some ⟨identity, true⟩ → delivery = 0 := by
    intro hhit
    refine hnothing fun hremoved => ?_
    rw [h.normalized, hremoved] at hhit
    cases hhit
  have hbuild := @SplitState.build_spec _ _ _ _ _ _ (settling.cache.split which)
    { settling.cache.split which with files := extraction.files which } rfl hindex rfl rfl
    identity source (attempt.parsed which) hfrom hstored
  cases hbuild with
  | inl hbuilt =>
      obtain ⟨hok, hbuilt⟩ := hbuilt
      exact .inl ⟨congrArg some hok, hbuilt⟩
  | inr hunbuilt =>
      obtain ⟨hfails, hunbuilt⟩ := hunbuilt
      exact .inr ⟨fun hok => hfails (Option.some.inj hok), hunbuilt⟩

/-- One attempt: the splits it looks for are built or still missing, and the others untouched. -/
structure Attempted (before : Settling I D) (joined : Joined I D E) : Prop where
  archive : joined.settling.archive = before.archive
  deliveries : joined.settling.deliveries = before.deliveries
  pending : joined.settling.cache.pending = before.cache.pending
  spared : ∀ which, (before.cache.split which).missing = false →
    joined.settling.cache.split which = before.cache.split which
  looked : ∀ which, (before.cache.split which).missing = true →
    Built before.archive before.deliveries (before.cache.split which)
        (joined.settling.cache.split which) ∨
      Unbuilt (before.cache.split which) (joined.settling.cache.split which)
  completed : joined.settling.completed =
    before.completed + [Split.validation, .train].countP fun which =>
      before.training which && (joined.settling.cache.split which).index.isSome
  succeeded : joined.fatal = none → joined.failed = false → ∀ which,
    (before.cache.split which).missing = true → (joined.settling.cache.split which).index.isSome
  failing : joined.fatal = none → joined.failed = true → joined.streamError = false →
    ∃ which, (before.cache.split which).missing = true ∧
      (joined.settling.cache.split which).index = none

/-- A parser that was started returned, was refused its document, or raised. -/
theorem parse_result [DecidableEq D] {member : Member I D} {attempt : Attempt I E}
    (hmember : extraction.members which = some member) (hidentity : member.identity ≠ none)
    (hrejected : rejected (settling.parse extraction attempt which).2 = false)
    (hraised : raisedIn (settling.parse extraction attempt which).2 = none) :
    (settling.parse extraction attempt which).2 = some (.ok ()) := by
  obtain ⟨⟨identity, source⟩, hsome⟩ := Option.ne_none_iff_exists'.mp hidentity
  have hstarted : (extraction.members which).bind Member.identity = some (identity, source) := by
    rw [hmember, Option.bind_some, hsome]
  revert hrejected hraised
  rw [parse]
  simp only [hstarted]
  generalize (SplitState.build _ identity source (attempt.parsed which)).2 = result
  cases result with
  | ok value => exact fun _ _ => rfl
  | error fault =>
      cases fault with
      | sourceUnavailable => exact fun hrejected => nomatch hrejected
      | raised exception => exact fun _ hraised => nomatch hraised

theorem mem_all (which : Split) : which ∈ [Split.validation, .train] := by
  cases which <;> decide

theorem ok_of_any {result : Option (Except (Fault E) Unit)}
    (h : result.any (fun outcome => outcome.isOk) = true) : result = some (.ok ()) := by
  cases result with
  | none => cases h
  | some outcome =>
      cases outcome with
      | ok value => rfl
      | error fault => cases h

theorem raisedIn_eq_none {parsed : Split → Option (Except (Fault E) Unit)}
    (h : (raisedIn (parsed .validation)).or (raisedIn (parsed .train)) = none) (which : Split) :
    raisedIn (parsed which) = none := by
  obtain ⟨hvalidation, htrain⟩ := Option.or_eq_none_iff.mp h
  cases which with
  | train => exact htrain
  | validation => exact hvalidation

theorem attemptOnce_spec [DecidableEq I] [DecidableEq D] (digest : I → Split → Nat → D)
    (settling : Settling I D) (attempt : Attempt I E)
    (hcleared : settling.deliveries ≠ 0 → Cleared settling.cache.split) :
    Attempted settling (settling.attemptOnce digest attempt) := by
  obtain ⟨hwalked, hended⟩ := @Extraction.run_walked _ _ _ digest settling.archive
    settling.deliveries _ settling.cache.split attempt
  rw [attemptOnce]
  generalize Extraction.run digest settling.archive settling.deliveries settling.cache.split
    attempt = run at hwalked hended ⊢
  obtain ⟨extraction, stop⟩ := run
  have hspared := fun (which : Split) (hmissing : (settling.cache.split which).missing = false) =>
    parse_spared hwalked hmissing attempt
  have hparse := fun (which : Split) (hmissing : (settling.cache.split which).missing = true) =>
    parse_spec hwalked hcleared hmissing attempt
  dsimp only at hwalked hended ⊢
  refine ⟨rfl, rfl, rfl, ?_, ?_, ?_, ?_, ?_⟩
  · intro which hmissing
    simp only [hspared which hmissing]
  · intro which hmissing
    exact (hparse which hmissing).imp And.right And.right
  · refine congrArg (settling.completed + ·) (List.countP_congr fun which _ => ?_)
    rw [training]
    cases hmissing : (settling.cache.split which).missing with
    | false =>
        rw [hspared which hmissing]
        simp
    | true =>
        rw [Bool.true_and]
        cases hparse which hmissing with
        | inl hbuilt =>
            obtain ⟨index, hindex, -⟩ := hbuilt.2.built
            rw [hbuilt.1, hindex, Option.any_some, Option.isSome_some]
            exact Iff.rfl
        | inr hunbuilt =>
            rw [hunbuilt.2.index, Option.isSome_none]
            refine ⟨fun hok => absurd (ok_of_any hok) hunbuilt.1, fun hsome => nomatch hsome⟩
  · intro hfatal hfailed which hmissing
    obtain ⟨member, hmember, hsought⟩ := hwalked.sought which hmissing
    rw [Bool.or_eq_false_iff, Option.isSome_eq_false_iff, Option.isNone_iff_eq_none] at hfailed
    obtain ⟨hstop, hsplits⟩ := hfailed
    obtain ⟨hmember_failed, hrejected⟩ := Bool.or_eq_false_iff.mp
      (Bool.eq_false_iff.mpr fun hsome => Bool.eq_false_iff.mp hsplits
        (List.any_eq_true.mpr ⟨which, mem_all which, hsome⟩))
    rw [hmember, Option.any_some] at hmember_failed
    have hidentity : member.identity ≠ none := by
      intro hnone
      rw [hended hstop which member hmember hnone] at hmember_failed
      cases hmember_failed
    rw [hstop] at hfatal
    have hraised : raisedIn (settling.parse extraction attempt which).2 = none :=
      @raisedIn_eq_none _ (fun which => (settling.parse extraction attempt which).2) hfatal which
    cases hparse which hmissing with
    | inl hbuilt =>
        obtain ⟨index, hindex, -⟩ := hbuilt.2.built
        rw [hindex]
        rfl
    | inr hunbuilt =>
        exact absurd (parse_result hmember hidentity hrejected hraised) hunbuilt.1
  · intro hfatal hfailed hstream
    dsimp only at hstream hfailed
    rw [hstream, Bool.false_or, List.any_eq_true] at hfailed
    obtain ⟨which, -, hfailed⟩ := hfailed
    have hmissing : (settling.cache.split which).missing = true := by
      cases hmissing : (settling.cache.split which).missing with
      | true => rfl
      | false =>
          rw [hspared which hmissing, (hwalked.spared which hmissing).1] at hfailed
          cases hfailed
    refine ⟨which, hmissing, ?_⟩
    cases hparse which hmissing with
    | inr hunbuilt => exact hunbuilt.2.index
    | inl hbuilt =>
        have haccepted : rejected (some (.ok ()) : Option (Except (Fault E) Unit)) = false := rfl
        rw [hbuilt.1, haccepted, Bool.or_false] at hfailed
        obtain ⟨member, hmember, hsought⟩ := hwalked.sought which hmissing
        rw [hmember, Option.any_some] at hfailed
        have hnothing : (settling.parse extraction attempt which).2 = none := by
          rw [parse, hmember, Option.bind_some, hsought.failed hfailed]
        rw [hnothing] at hbuilt
        cases hbuilt.1

end Settling

end Mmltk.Benchmark.Annotations
