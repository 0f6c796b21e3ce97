import Mmltk.Coconut.RecoveryMasks
import Mmltk.Foundation.SortedLists

namespace Mmltk.Coconut

open Mmltk.Dataset (RLEPair MaskError)

/-! The groups of the segments of an image, and the candidates of each group. -/

namespace CoconutMaskRecovery

theorem GroupKey.rank_inj {key other : GroupKey} (h : key.rank = other.rank) : key = other := by
  obtain ⟨category, crowd, ignore⟩ := key
  obtain ⟨category', crowd', ignore'⟩ := other
  rw [GroupKey.rank, GroupKey.rank] at h
  cases crowd <;> cases crowd' <;> cases ignore <;> cases ignore' <;>
    simp only [Bool.toNat_true, Bool.toNat_false] at h <;> first | omega | (congr 1; omega)

section

variable (segments : List CoconutRecordSegment) (support : List Support)

/-- What the order of the ordinals compares. -/
def code (ordinal : Nat) : Nat ×ₗ Nat ×ₗ Nat :=
  toLex ((key segments ordinal).rank, toLex
    (if dropped segments support ordinal then 0 else 1,
      if dropped segments support ordinal then segmentId segments ordinal else ordinal))

theorem before_iff (left right : Nat) : before segments support left right = true ↔
    code segments support left < code segments support right := by
  rw [before, code, code, Prod.Lex.toLex_lt_toLex, Prod.Lex.toLex_lt_toLex]
  dsimp only
  split
  next hkeys =>
    have hranks : (key segments left).rank ≠ (key segments right).rank := fun h =>
      hkeys (GroupKey.rank_inj h)
    simp only [decide_eq_true_eq, hranks, false_and, or_false]
  next hkeys =>
    rw [not_not] at hkeys
    rw [hkeys]
    cases hleft : dropped segments support left <;> cases hright : dropped segments support right <;>
      simp

theorem ordinals_perm : (ordinals segments support).Perm
    ((List.range segments.length).filter (member segments support)) :=
  List.perm_insertionSort _ _

theorem mem_ordinals {ordinal : Nat} : ordinal ∈ ordinals segments support ↔
    member segments support ordinal = true := by
  rw [(ordinals_perm segments support).mem_iff, List.mem_filter, List.mem_range]
  refine and_iff_right_of_imp fun hmember => ?_
  rw [member] at hmember
  cases hsegment : segments[ordinal]? with
  | none => rw [hsegment] at hmember; cases hmember
  | some segment => exact (List.getElem?_eq_some_iff.mp hsegment).1

theorem ordinals_nodup : (ordinals segments support).Nodup :=
  (ordinals_perm segments support).nodup_iff.mpr (List.nodup_range.filter _)

theorem ordinals_sorted : (ordinals segments support).Pairwise fun left right =>
    code segments support left ≤ code segments support right := by
  have hiff : ∀ left right, ¬ before segments support right left = true ↔
      code segments support left ≤ code segments support right := fun left right => by
    rw [before_iff, not_lt]
  have htotal : Std.Total fun left right => ¬ before segments support right left = true :=
    ⟨fun left right => by rw [hiff, hiff]; exact le_total _ _⟩
  have htrans : IsTrans Nat fun left right => ¬ before segments support right left = true :=
    ⟨fun first second third hfirst hsecond => by
      rw [hiff] at hfirst hsecond ⊢
      exact hfirst.trans hsecond⟩
  exact (List.pairwise_insertionSort (fun left right => ¬ before segments support right left = true)
    _).imp fun {left right} h => (hiff left right).mp h

variable {segments support}

theorem rank_le {left right : Nat} (h : code segments support left ≤ code segments support right) :
    (key segments left).rank ≤ (key segments right).rank := by
  rcases Prod.Lex.toLex_le_toLex.mp h with hlt | ⟨heq, -⟩
  · exact hlt.le
  · exact heq.le

theorem same_key_le {left right : Nat} (hkey : key segments left = key segments right)
    (h : code segments support left ≤ code segments support right) :
    (dropped segments support right = true → dropped segments support left = true ∧
      segmentId segments left ≤ segmentId segments right) := by
  intro hright
  rw [code, code, Prod.Lex.toLex_le_toLex, Prod.Lex.toLex_le_toLex] at h
  dsimp only at h
  rw [hkey] at h
  cases hleft : dropped segments support left with
  | false => simp [hleft, hright] at h
  | true =>
      refine ⟨rfl, ?_⟩
      simpa [hleft, hright] using h

/-- The groups of ordinals in order. -/
structure Grouped (segments : List CoconutRecordSegment) (support : List Support)
    (ordinals : List Nat) (groups : List Group) : Prop where
  flat : groups.flatMap (fun group => group.members) = ordinals
  uniform : ∀ group ∈ groups, group.members ≠ [] ∧
    ∀ ordinal ∈ group.members, key segments ordinal = group.key
  sorted : groups.Pairwise fun group later => group.key.rank < later.key.rank
  counts : ∀ group ∈ groups, group.dropped = group.members.countP (dropped segments support) ∧
    group.candidateCount = 0

theorem Grouped.enter {ordinals : List Nat} {groups : List Group} {ordinal : Nat}
    (h : Grouped segments support ordinals groups)
    (hlast : ∀ earlier ∈ ordinals, (key segments earlier).rank ≤ (key segments ordinal).rank) :
    Grouped segments support (ordinals ++ [ordinal])
      (CoconutMaskRecovery.enter segments support groups ordinal) := by
  have hone : [ordinal].countP (dropped segments support) =
      if dropped segments support ordinal then 1 else 0 := by
    rw [List.countP_singleton]
  have halone : ∀ group ∈ groups, group.key ≠ key segments ordinal →
      group.key.rank < (key segments ordinal).rank := by
    intro group hgroup hne
    obtain ⟨hsome, hkeys⟩ := h.uniform group hgroup
    obtain ⟨earlier, hearlier⟩ := List.exists_mem_of_ne_nil _ hsome
    have hle := hlast earlier (h.flat ▸ List.mem_flatMap.mpr ⟨group, hgroup, hearlier⟩)
    rw [hkeys earlier hearlier] at hle
    exact lt_of_le_of_ne hle fun hranks => hne (GroupKey.rank_inj hranks)
  have hnew : (∀ group ∈ groups, group.key ≠ key segments ordinal) →
      Grouped segments support (ordinals ++ [ordinal])
        (groups ++ [⟨key segments ordinal, [ordinal],
          if dropped segments support ordinal then 1 else 0, 0⟩]) := by
    intro hother
    refine ⟨?_, fun group hgroup => ?_, List.pairwise_append.mpr ⟨h.sorted,
      List.pairwise_singleton _ _, fun group hgroup later hlater => ?_⟩, fun group hgroup => ?_⟩
    · rw [List.flatMap_append, h.flat, List.flatMap_singleton]
    · rcases List.mem_append.mp hgroup with hold | hown
      · exact h.uniform group hold
      · rw [List.mem_singleton.mp hown]
        exact ⟨List.cons_ne_nil _ _, fun own hmem => by rw [List.mem_singleton.mp hmem]⟩
    · rw [List.mem_singleton.mp hlater]
      exact halone group hgroup (hother group hgroup)
    · rcases List.mem_append.mp hgroup with hold | hown
      · exact h.counts group hold
      · rw [List.mem_singleton.mp hown]
        exact ⟨hone.symm, rfl⟩
  rw [CoconutMaskRecovery.enter]
  rcases List.eq_nil_or_concat groups with hnil | ⟨front, back, hconcat⟩
  · rw [hnil] at hnew ⊢
    exact hnew nofun
  · rw [List.concat_eq_append] at hconcat
    have hback : groups.getLast? = some back := by rw [hconcat, List.getLast?_concat]
    rw [hback]
    dsimp only
    have hmem : back ∈ groups := hconcat ▸ List.mem_append_right _ List.mem_cons_self
    obtain ⟨hfrontSorted, -, hcross⟩ := List.pairwise_append.mp (hconcat ▸ h.sorted)
    split
    next hsame =>
      obtain ⟨hsome, hkeys⟩ := h.uniform back hmem
      obtain ⟨hcount, hcandidates⟩ := h.counts back hmem
      have hfront : ∀ group ∈ front, group ∈ groups := fun group hgroup =>
        hconcat ▸ List.mem_append_left _ hgroup
      have hdrop : groups.dropLast = front := by rw [hconcat, List.dropLast_concat]
      rw [hdrop]
      refine ⟨?_, fun group hgroup => ?_, List.pairwise_append.mpr ⟨hfrontSorted,
        List.pairwise_singleton _ _, fun group hgroup later hlater => ?_⟩, fun group hgroup => ?_⟩
      · rw [← h.flat, hconcat, List.flatMap_append, List.flatMap_append, List.flatMap_singleton,
          List.flatMap_singleton, List.append_assoc]
      · rcases List.mem_append.mp hgroup with hold | hown
        · exact h.uniform group (hfront group hold)
        · rw [List.mem_singleton.mp hown]
          refine ⟨List.append_ne_nil_of_left_ne_nil hsome _, fun own howned => ?_⟩
          rcases List.mem_append.mp howned with hearlier | hlatest
          · exact hkeys own hearlier
          · rw [List.mem_singleton.mp hlatest, hsame]
      · rw [List.mem_singleton.mp hlater]
        exact hcross group hgroup back List.mem_cons_self
      · rcases List.mem_append.mp hgroup with hold | hown
        · exact h.counts group (hfront group hold)
        · rw [List.mem_singleton.mp hown]
          refine ⟨?_, hcandidates⟩
          rw [List.countP_append, hone, hcount]
    next hdiffer =>
      refine hnew fun group hgroup hsame => ?_
      rw [hconcat] at hgroup
      rcases List.mem_append.mp hgroup with hold | hown
      · have hless := hcross group hold back List.mem_cons_self
        have hbackLess := halone back hmem hdiffer
        rw [hsame] at hless
        omega
      · rw [List.mem_singleton.mp hown] at hsame
        exact hdiffer hsame

theorem grouped_foldl {rest ordinals : List Nat} {groups : List Group}
    (h : Grouped segments support ordinals groups)
    (hsorted : (ordinals ++ rest).Pairwise fun left right =>
      (key segments left).rank ≤ (key segments right).rank) :
    Grouped segments support (ordinals ++ rest)
      (rest.foldl (CoconutMaskRecovery.enter segments support) groups) := by
  induction rest generalizing ordinals groups with
  | nil =>
      rw [List.append_nil]
      exact h
  | cons ordinal rest ih =>
      have hsplit : ordinals ++ ordinal :: rest = (ordinals ++ [ordinal]) ++ rest := by
        rw [List.append_assoc, List.singleton_append]
      have hstep := (@Grouped.enter _ _ _ _ ordinal) h fun earlier hearlier =>
        (List.pairwise_append.mp hsorted).2.2 earlier hearlier ordinal List.mem_cons_self
      rw [hsplit] at hsorted ⊢
      exact ih hstep hsorted

theorem grouped : Grouped segments support (ordinals segments support) (groups segments support) :=
  (@grouped_foldl _ _ _ []) ⟨rfl, nofun, .nil, nofun⟩
    ((ordinals_sorted segments support).imp rank_le)

/-- The ordinals of a key, in order. -/
def membersOf (segments : List CoconutRecordSegment) (support : List Support) (own : GroupKey) :
    List Nat :=
  (ordinals segments support).filter fun ordinal => key segments ordinal = own

theorem members_eq {group : Group} (h : group ∈ groups segments support) :
    group.members = membersOf segments support group.key := by
  have hgrouped := @grouped segments support
  obtain ⟨front, back, hsplit⟩ := List.append_of_mem h
  have hnone : ∀ other ∈ groups segments support, other.key ≠ group.key →
      (other.members.filter fun ordinal => key segments ordinal = group.key) = [] := by
    intro other hother hne
    refine List.filter_eq_nil_iff.mpr fun ordinal hordinal hsame => hne ?_
    rw [← (hgrouped.uniform other hother).2 ordinal hordinal]
    exact of_decide_eq_true hsame
  have hsorted := hsplit ▸ hgrouped.sorted
  obtain ⟨-, hbackSorted, hcross⟩ := List.pairwise_append.mp hsorted
  have hfront : (front.flatMap fun other =>
      other.members.filter fun ordinal => key segments ordinal = group.key) = [] := by
    refine List.flatMap_eq_nil_iff.mpr fun other hother => hnone other ?_ fun hsame => ?_
    · exact hsplit ▸ List.mem_append_left _ hother
    · have hless := hcross other hother group List.mem_cons_self
      rw [hsame] at hless
      omega
  have hback : (back.flatMap fun other =>
      other.members.filter fun ordinal => key segments ordinal = group.key) = [] := by
    refine List.flatMap_eq_nil_iff.mpr fun other hother => hnone other ?_ fun hsame => ?_
    · exact hsplit ▸ List.mem_append_right _ (List.mem_cons_of_mem _ hother)
    · have hless := (List.pairwise_cons.mp hbackSorted).1 other hother
      rw [hsame] at hless
      omega
  have hown : (group.members.filter fun ordinal => key segments ordinal = group.key) =
      group.members :=
    List.filter_eq_self.mpr fun ordinal hordinal =>
      decide_eq_true ((hgrouped.uniform group h).2 ordinal hordinal)
  rw [membersOf, ← hgrouped.flat, List.filter_flatMap, hsplit, List.flatMap_append,
    List.flatMap_cons, hfront, hback, hown, List.append_nil, List.nil_append]

end

/-! The candidates. -/

/-- The boxes that are candidates for a group. -/
def wanted (group : Group) (boxes : List NormalizedBox) : List NormalizedBox :=
  if group.dropped = 0 then [] else boxes.filter fun box => boxKey box = group.key

theorem wanted_append (group : Group) (boxes : List NormalizedBox) (box : NormalizedBox) :
    wanted group (boxes ++ [box]) =
      if group.dropped ≠ 0 ∧ boxKey box = group.key then wanted group boxes ++ [box]
      else wanted group boxes := by
  rw [wanted, wanted]
  split
  next hzero => rw [if_neg fun h => h.1 hzero]
  next hsome =>
    rw [List.filter_append, List.filter_cons, List.filter_nil]
    split
    next hkey => rw [if_pos ⟨hsome, of_decide_eq_true hkey⟩]
    next hkey => rw [if_neg fun h => hkey (decide_eq_true h.2), List.append_nil]

/-- The groups with the number of their candidates. -/
def counted (boxes : List NormalizedBox) (group : Group) : Group :=
  { group with candidateCount := (wanted group boxes).length }

/-- What is entered of some boxes. -/
structure Entered (initial : List Group) (boxes : List NormalizedBox) (groups : List Group)
    (candidates : List Candidate) : Prop where
  groups : groups = initial.map (counted boxes)
  parts : ∀ slot group, initial[slot]? = some group →
    candidates.filter (fun candidate => candidate.group = slot) =
      (wanted group boxes).map (fresh slot)
  below : ∀ candidate ∈ candidates, candidate.group < initial.length

theorem lowerBound_eq {groups : List Group} {slot : Nat} {group : Group}
    (hsorted : groups.Pairwise fun group later => group.key.rank < later.key.rank)
    (h : groups[slot]? = some group) : lowerBound groups group.key = slot := by
  obtain ⟨hslot, hgroup⟩ := List.getElem?_eq_some_iff.mp h
  rw [lowerBound, List.findIdx_eq hslot]
  refine ⟨by rw [hgroup]; exact decide_eq_true (lt_irrefl _), fun earlier hearlier => ?_⟩
  have hless := List.pairwise_iff_getElem.mp hsorted earlier slot (hearlier.trans hslot) hslot hearlier
  rw [hgroup] at hless
  exact decide_eq_false (not_not.mpr hless)

theorem lowerBound_counted (groups : List Group) (boxes : List NormalizedBox) (own : GroupKey) :
    lowerBound (groups.map (counted boxes)) own = lowerBound groups own := by
  rw [lowerBound, List.findIdx_map]
  rfl

theorem Entered.enter {initial groups : List Group} {boxes : List NormalizedBox}
    {candidates : List Candidate} (box : NormalizedBox)
    (hsorted : initial.Pairwise fun group later => group.key.rank < later.key.rank)
    (h : Entered initial boxes groups candidates) :
    Entered initial (boxes ++ [box]) (enterBox groups candidates box).1
      (enterBox groups candidates box).2 := by
  have hunique : ∀ slot group, initial[slot]? = some group → boxKey box = group.key →
      slot = lowerBound initial (boxKey box) := by
    intro slot group hgroup hkey
    rw [hkey, lowerBound_eq hsorted hgroup]
  have hstay : (∀ group ∈ initial, ¬ (group.dropped ≠ 0 ∧ boxKey box = group.key)) →
      Entered initial (boxes ++ [box]) groups candidates := by
    intro hnone
    have hsame : ∀ group ∈ initial, wanted group (boxes ++ [box]) = wanted group boxes :=
      fun group hgroup => by rw [wanted_append, if_neg (hnone group hgroup)]
    refine ⟨h.groups.trans (List.map_congr_left fun group hgroup => ?_), fun slot group hgroup => ?_,
      h.below⟩
    · rw [counted, counted, hsame group hgroup]
    · rw [h.parts slot group hgroup, hsame group (List.mem_of_getElem? hgroup)]
  have hslot : lowerBound groups (boxKey box) = lowerBound initial (boxKey box) := by
    rw [h.groups, lowerBound_counted]
  rw [enterBox, hslot, h.groups, List.getElem?_map]
  cases hfound : initial[lowerBound initial (boxKey box)]? with
  | none =>
      rw [← h.groups]
      refine hstay fun group hgroup hwanted => ?_
      obtain ⟨slot, hslot⟩ := List.getElem?_of_mem hgroup
      rw [hunique slot group hslot hwanted.2, hfound] at hslot
      cases hslot
  | some found =>
      simp only [Option.map_some]
      have hothers : ∀ slot group, initial[slot]? = some group → slot ≠ lowerBound initial (boxKey box) →
          wanted group (boxes ++ [box]) = wanted group boxes := by
        intro slot group hgroup hne
        rw [wanted_append, if_neg fun hwanted => hne (hunique slot group hgroup hwanted.2)]
      split
      next hunwanted =>
        rw [← h.groups]
        refine hstay fun group hgroup hwanted => ?_
        obtain ⟨slot, hslot⟩ := List.getElem?_of_mem hgroup
        rw [hunique slot group hslot hwanted.2, hfound] at hslot
        obtain rfl := Option.some.inj hslot
        rcases hunwanted with hkey | hdropped
        · exact hkey hwanted.2.symm
        · exact hwanted.1 hdropped
      next hchosen =>
        rw [not_or, not_not] at hchosen
        obtain ⟨hkey, hdropped⟩ := hchosen
        have hgrown : wanted found (boxes ++ [box]) = wanted found boxes ++ [box] := by
          rw [wanted_append, if_pos ⟨hdropped, hkey.symm⟩]
        refine ⟨List.ext_getElem? fun slot => ?_, fun slot group hgroup => ?_,
          fun candidate hcandidate => ?_⟩
        · rw [List.getElem?_set, List.getElem?_map, List.getElem?_map, List.length_map]
          split
          next hsame =>
            rw [← hsame, hfound, if_pos (List.getElem?_eq_some_iff.mp hfound).1]
            rw [Option.map_some, counted, counted, hgrown, List.length_append]
            rfl
          next hne =>
            cases hgroup : initial[slot]? with
            | none => rfl
            | some group =>
                rw [Option.map_some, Option.map_some, counted, counted,
                  hothers slot group hgroup (Ne.symm hne)]
        · rw [List.filter_append, h.parts slot group hgroup]
          rcases eq_or_ne slot (lowerBound initial (boxKey box)) with rfl | hne
          · rw [hfound] at hgroup
            obtain rfl := Option.some.inj hgroup
            rw [hgrown, List.map_append, List.filter_cons, if_pos (decide_eq_true rfl),
              List.filter_nil]
            rfl
          · rw [hothers slot group hgroup hne, List.filter_cons,
              if_neg fun hsame => hne (of_decide_eq_true hsame).symm, List.filter_nil,
              List.append_nil]
        · rcases List.mem_append.mp hcandidate with hold | hnew
          · exact h.below candidate hold
          · rw [List.mem_singleton.mp hnew]
            exact (List.getElem?_eq_some_iff.mp hfound).1

theorem entered_enterBoxes {initial groups : List Group} {boxes rest : List NormalizedBox}
    {candidates : List Candidate}
    (hsorted : initial.Pairwise fun group later => group.key.rank < later.key.rank)
    (h : Entered initial boxes groups candidates) :
    Entered initial (boxes ++ rest) (enterBoxes groups candidates rest).1
      (enterBoxes groups candidates rest).2 := by
  induction rest generalizing boxes groups candidates with
  | nil =>
      rw [List.append_nil]
      exact h
  | cons box rest ih =>
      have hsplit : boxes ++ box :: rest = (boxes ++ [box]) ++ rest := by
        rw [List.append_assoc, List.singleton_append]
      rw [hsplit, enterBoxes]
      exact ih (h.enter box hsorted)

end CoconutMaskRecovery

end Mmltk.Coconut
