import Mathlib.Data.List.TakeWhile
import Mmltk.Foundation.Intervals

namespace Mmltk.Storage

open Mmltk.Foundation

/-! The occupied ranges: a map from the first offset of a range to its last, in key order.
Iterators are positions in the list, nodes prepared beforehand are counted. -/

/-- `std::map::insert` of a node: an existing key keeps its own. -/
def insertNode (node : Interval) : List Interval → List Interval
  | [] => [node]
  | interval :: rest =>
      if node.1 < interval.1 then node :: interval :: rest
      else if interval.1 < node.1 then interval :: insertNode node rest
      else interval :: rest

/-- `lower_bound`, and one step back to a previous range that still reaches `begin`. -/
def seek (begin : Nat) (reaches : Nat → Bool) (ranges : List Interval) :
    List Interval × List Interval :=
  let front := ranges.takeWhile fun range => range.1 < begin
  let back := ranges.dropWhile fun range => range.1 < begin
  match front.getLast? with
  | some previous =>
      if reaches previous.2 then (front.dropLast, previous :: back) else (front, back)
  | none => (front, back)

/-- `prepared.extract(prepared.begin())`: undefined on an empty map. -/
def extractNode : Nat → Option Nat
  | 0 => none
  | left + 1 => some left

/-- The loop of `forget_range` from an iterator on. -/
def forgetLoop (begin limit : Nat) (front : List Interval) :
    List Interval → Nat → Option (List Interval × Nat)
  | [], prepared => some (front, prepared)
  | (first, last) :: rest, prepared =>
      if first < limit then
        if first < begin then
          if last > limit then
            (extractNode prepared).map fun left =>
              (insertNode (limit, last) (front ++ (first, begin) :: rest), left)
          else forgetLoop begin limit (front ++ [(first, begin)]) rest prepared
        else if last > limit then some (insertNode (limit, last) (front ++ rest), prepared)
        else forgetLoop begin limit front rest prepared
      else some (front ++ (first, last) :: rest, prepared)

def forgetRange (begin limit : Nat) (ranges : List Interval) (prepared : Nat) :
    Option (List Interval × Nat) :=
  if begin ≥ limit then some (ranges, prepared)
  else
    let position := seek begin (fun last => last > begin) ranges
    forgetLoop begin limit position.1 position.2 prepared

/-- The loop of `occupy_range`: the merged range and what is left after it. -/
def occupyLoop (begin limit : Nat) : List Interval → Interval × List Interval
  | [] => ((begin, limit), [])
  | (first, last) :: rest =>
      if first ≤ limit then occupyLoop (min begin first) (max limit last) rest
      else ((begin, limit), (first, last) :: rest)

def occupyRange (begin limit : Nat) (ranges : List Interval) (prepared : Nat) :
    Option (List Interval × Nat) :=
  let position := seek begin (fun last => last ≥ begin) ranges
  let merged := occupyLoop begin limit position.2
  (extractNode prepared).map fun left => (insertNode merged.1 (position.1 ++ merged.2), left)

theorem extractNode_pos {prepared : Nat} (h : 0 < prepared) :
    extractNode prepared = some (prepared - 1) := by
  cases prepared with
  | zero => exact absurd h (Nat.lt_irrefl 0)
  | succ left => rfl

/-! Positions. -/

variable {unit begin limit : Nat} {node : Interval} {ranges front back : List Interval}

theorem insertNode_between (hfront : ∀ range ∈ front, range.1 < node.1)
    (hback : ∀ range ∈ back, node.1 < range.1) :
    insertNode node (front ++ back) = front ++ node :: back := by
  induction front with
  | nil =>
      cases back with
      | nil => rfl
      | cons next rest => exact if_pos (hback next List.mem_cons_self)
  | cons first rest ih =>
      have hfirst := hfront first List.mem_cons_self
      rw [List.cons_append, insertNode, if_neg (Nat.lt_asymm hfirst), if_pos hfirst,
        ih fun range hmem => hfront range (List.mem_cons_of_mem _ hmem)]
      rfl

theorem le_of_mem_dropWhile (h : Separated unit ranges) :
    ∀ range ∈ ranges.dropWhile fun range => range.1 < begin, begin ≤ range.1 := by
  induction ranges with
  | nil => exact fun range hmem => absurd hmem List.not_mem_nil
  | cons first rest ih =>
      obtain ⟨hvalid, hlater, hrest⟩ := Separated.cons_iff.mp h
      by_cases hfirst : first.1 < begin
      · rw [List.dropWhile_cons, if_pos (decide_eq_true hfirst)]
        exact ih hrest
      · rw [List.dropWhile_cons, if_neg (by simpa using hfirst)]
        intro range hmem
        rcases List.mem_cons.mp hmem with heq | hin
        · exact heq ▸ Nat.le_of_not_lt hfirst
        · have hafter := hlater range hin
          omega

/-- `seek` parts the ranges into those that do not reach `begin` and those that do. -/
theorem seek_spec (begin : Nat) (reaches : Nat → Bool) (h : Separated unit ranges)
    (hpast : ∀ last, begin < last → reaches last = true)
    (hreached : ∀ last, reaches last = true → begin ≤ last) :
    (seek begin reaches ranges).1 ++ (seek begin reaches ranges).2 = ranges ∧
      (∀ range ∈ (seek begin reaches ranges).1, reaches range.2 = false) ∧
      ∀ range ∈ (seek begin reaches ranges).2, reaches range.2 = true := by
  have hsplit : (ranges.takeWhile fun range => range.1 < begin) ++
      (ranges.dropWhile fun range => range.1 < begin) = ranges := List.takeWhile_append_dropWhile
  have hkeys : ∀ range ∈ ranges.takeWhile fun range => range.1 < begin, range.1 < begin :=
    fun range hmem => by simpa using List.mem_takeWhile_imp hmem
  have hback : ∀ range ∈ ranges.dropWhile fun range => range.1 < begin,
      reaches range.2 = true := by
    intro range hmem
    have hvalid := (h.valid range (hsplit ▸ List.mem_append_right _ hmem)).1
    exact hpast _ (Nat.lt_of_le_of_lt (le_of_mem_dropWhile h range hmem) hvalid)
  rw [seek]
  generalize (ranges.takeWhile fun range => range.1 < begin) = front at hsplit hkeys ⊢
  generalize (ranges.dropWhile fun range => range.1 < begin) = back at hsplit hback ⊢
  rcases List.eq_nil_or_concat' front with rfl | ⟨earlier, previous, rfl⟩
  · exact ⟨hsplit, fun range hmem => absurd hmem List.not_mem_nil, hback⟩
  · rw [List.getLast?_concat, List.dropLast_concat]
    subst hsplit
    have hearlier : ∀ range ∈ earlier, reaches range.2 = false := by
      intro range hmem
      have hbefore := (Separated.append_iff.mp (Separated.append_iff.mp h).1).2.2 range hmem
        previous (List.mem_singleton_self _)
      have hkey := hkeys previous (List.mem_append_right _ (List.mem_singleton_self _))
      by_contra hreaches
      have := hreached _ (Bool.of_not_eq_false hreaches)
      omega
    simp only
    split
    · next hreaches =>
        refine ⟨by rw [List.append_assoc]; rfl, hearlier, ?_⟩
        intro range hmem
        rcases List.mem_cons.mp hmem with heq | hin
        · exact heq ▸ hreaches
        · exact hback range hin
    · next hreaches =>
        refine ⟨rfl, ?_, hback⟩
        intro range hmem
        rcases List.mem_append.mp hmem with hin | hin
        · exact hearlier range hin
        · rw [List.mem_singleton.mp hin]
          exact Bool.of_not_eq_true hreaches

/-! `forget_range` -/

theorem covered_front (hfront : ∀ range ∈ front, range.2 ≤ begin) (address : Nat)
    (h : Covered front address) : address < begin := by
  obtain ⟨range, hmem, -, hbefore⟩ := h
  exact Nat.lt_of_lt_of_le hbefore (hfront range hmem)

theorem covered_back (hback : ∀ range ∈ back, limit < range.1) (address : Nat)
    (h : Covered back address) : limit < address := by
  obtain ⟨range, hmem, hafter, -⟩ := h
  exact Nat.lt_of_lt_of_le (hback range hmem) hafter

theorem forgetLoop_spec {prepared : Nat} (h : Separated unit (front ++ back))
    (hfront : ∀ range ∈ front, range.2 ≤ begin) (hback : ∀ range ∈ back, begin < range.2)
    (hlt : begin < limit) (hbegin : unit ∣ begin)
    (hlimit : (unit ∣ limit ∧ 0 < prepared) ∨ ∀ range ∈ back, range.2 ≤ limit) :
    ∃ after left, forgetLoop begin limit front back prepared = some (after, left) ∧
      prepared ≤ left + 1 ∧ Separated unit after ∧
      ∀ address, Covered after address ↔
        Covered (front ++ back) address ∧ ¬(begin ≤ address ∧ address < limit) := by
  induction back generalizing front with
  | nil =>
      refine ⟨front, prepared, rfl, Nat.le_succ _, (Separated.append_iff.mp h).1, fun address => ?_⟩
      rw [List.append_nil]
      refine ⟨fun hin => ⟨hin, ?_⟩, And.left⟩
      have := covered_front hfront address hin
      omega
  | cons range rest ih =>
      obtain ⟨first, last⟩ := range
      obtain ⟨hbefore, htail, hcross⟩ := Separated.append_iff.mp h
      obtain ⟨⟨hvalid, hfirst, hlast⟩, hlater, hrest⟩ : (first < last ∧ unit ∣ first ∧
        unit ∣ last) ∧ (∀ later ∈ rest, last < later.1) ∧ _ := Separated.cons_iff.mp htail
      have hreach : begin < last := hback (first, last) List.mem_cons_self
      have hkept : Separated unit (front ++ rest) := Separated.append_iff.mpr ⟨hbefore, hrest,
        fun range hmem later hin => hcross range hmem later (List.mem_cons_of_mem _ hin)⟩
      have hfront_first : ∀ range ∈ front, range.2 < first :=
        fun range hmem => hcross range hmem (first, last) List.mem_cons_self
      have hrest_reach : ∀ range ∈ rest, begin < range.2 :=
        fun range hmem => hback range (List.mem_cons_of_mem _ hmem)
      have hrest_limit : (unit ∣ limit ∧ 0 < prepared) ∨ ∀ range ∈ rest, range.2 ≤ limit :=
        hlimit.imp_right fun hall range hmem => hall range (List.mem_cons_of_mem _ hmem)
      have hover : last > limit → unit ∣ limit ∧ 0 < prepared := fun hpast =>
        hlimit.resolve_right fun hall =>
          Nat.not_le_of_lt hpast (hall (first, last) List.mem_cons_self)
      rw [forgetLoop]
      split_ifs with hin hcut hpast hpast
      · -- the range is cut in two, and the second piece takes a prepared node
        obtain ⟨hunit, hnode⟩ := hover hpast
        have hkeys : ∀ range ∈ front ++ [(first, begin)], range.1 < limit := by
          intro range hmem
          rcases List.mem_append.mp hmem with hearlier | hpiece
          · have hrange := (hbefore.valid range hearlier).1
            have := hfront range hearlier
            omega
          · rw [List.mem_singleton.mp hpiece]
            exact hin
        have hbeyond : ∀ range ∈ rest, limit < range.1 :=
          fun range hmem => Nat.lt_trans hpast (hlater range hmem)
        have hinsert : insertNode (limit, last) (front ++ (first, begin) :: rest) =
            front ++ (first, begin) :: (limit, last) :: rest := by
          rw [List.append_cons, insertNode_between hkeys hbeyond, List.append_assoc]
          rfl
        rw [extractNode_pos hnode, Option.map_some, hinsert]
        refine ⟨_, _, rfl, by omega, ?_, fun address => ?_⟩
        · refine (hkept.insert hpast hunit hlast ?_ hlater).insert hcut hfirst hbegin
            hfront_first ?_
          · intro range hmem
            exact Nat.lt_of_le_of_lt (hfront range hmem) hlt
          · intro later hmem
            rcases List.mem_cons.mp hmem with heq | hin
            · exact heq ▸ hlt
            · exact Nat.lt_trans hreach (hlater later hin)
        · have hearlier := covered_front hfront address
          have hafter := covered_back hlater address
          simp only [covered_append, covered_cons]
          grind
      · -- the range loses its tail
        have hshort : Separated unit (front ++ [(first, begin)] ++ rest) := by
          rw [List.append_assoc]
          exact hkept.insert hcut hfirst hbegin hfront_first
            fun range hmem => Nat.lt_trans hreach (hlater range hmem)
        obtain ⟨after, left, hrun, hleft, hseparated, hcovered⟩ := ih hshort (by
          intro range hmem
          rcases List.mem_append.mp hmem with hearlier | hpiece
          · exact hfront range hearlier
          · exact Nat.le_of_eq (congrArg Prod.snd (List.mem_singleton.mp hpiece)))
          hrest_reach hrest_limit
        refine ⟨after, left, hrun, hleft, hseparated, fun address => ?_⟩
        have hafter := covered_back hlater address
        simp only [hcovered, covered_append, covered_cons, covered_nil]
        grind
      · -- the range loses its head
        have hinsert : insertNode (limit, last) (front ++ rest) = front ++ (limit, last) :: rest := by
          apply insertNode_between
          · intro range hmem
            have hrange := (hbefore.valid range hmem).1
            have := hfront range hmem
            exact Nat.lt_of_lt_of_le hrange (Nat.le_trans this hlt.le)
          · intro range hmem
            exact Nat.lt_trans hpast (hlater range hmem)
        refine ⟨_, prepared, rfl, Nat.le_succ _, ?_, fun address => ?_⟩
        · rw [hinsert]
          refine hkept.insert hpast (hover hpast).1 hlast ?_ hlater
          intro range hmem
          exact Nat.lt_of_le_of_lt (hfront range hmem) hlt
        · have hearlier := covered_front hfront address
          have hafter := covered_back hlater address
          simp only [hinsert, covered_append, covered_cons]
          grind
      · -- the range is erased
        obtain ⟨after, left, hrun, hleft, hseparated, hcovered⟩ := ih hkept hfront
          hrest_reach hrest_limit
        refine ⟨after, left, hrun, hleft, hseparated, fun address => ?_⟩
        rw [hcovered, covered_append, covered_append, covered_cons]
        grind
      · -- the remaining ranges start past the window
        refine ⟨_, prepared, rfl, Nat.le_succ _, h, fun address => ?_⟩
        have hearlier := covered_front hfront address
        have hafter := covered_back hlater address
        simp only [covered_append, covered_cons]
        grind

theorem forgetRange_spec {prepared : Nat} (h : Separated unit ranges) (hbegin : unit ∣ begin)
    (hlimit : (unit ∣ limit ∧ 0 < prepared) ∨ ∀ range ∈ ranges, range.2 ≤ limit) :
    ∃ after left, forgetRange begin limit ranges prepared = some (after, left) ∧
      prepared ≤ left + 1 ∧ Separated unit after ∧
      ∀ address, Covered after address ↔
        Covered ranges address ∧ ¬(begin ≤ address ∧ address < limit) := by
  rw [forgetRange]
  split
  · next hempty =>
      refine ⟨ranges, prepared, rfl, Nat.le_succ _, h, fun address => ⟨fun hin => ⟨hin, ?_⟩, And.left⟩⟩
      omega
  · next hlt =>
      obtain ⟨hsplit, hfront, hback⟩ := seek_spec begin (fun last => last > begin) h (fun _ hlast => decide_eq_true hlast)
        fun _ hlast => Nat.le_of_lt (of_decide_eq_true hlast)
      have hparts := h
      rw [← hsplit] at hparts
      have hall := forgetLoop_spec hparts
        (fun range hmem => Nat.le_of_not_lt (of_decide_eq_false (hfront range hmem)))
        (fun range hmem => of_decide_eq_true (hback range hmem)) (Nat.lt_of_not_le hlt) hbegin
        (hlimit.imp_right fun hends range hmem => hends range
          (hsplit ▸ List.mem_append_right _ hmem))
      rwa [hsplit] at hall

/-! `occupy_range` -/

theorem occupyLoop_spec (h : Separated unit (front ++ back))
    (hfront : ∀ range ∈ front, range.2 < begin) (hback : ∀ range ∈ back, begin ≤ range.2)
    (hlt : begin < limit) (hbegin : unit ∣ begin) (hlimit : unit ∣ limit) :
    Separated unit (front ++ (occupyLoop begin limit back).1 :: (occupyLoop begin limit back).2) ∧
      ∀ address,
        Covered (front ++ (occupyLoop begin limit back).1 :: (occupyLoop begin limit back).2)
            address ↔
          Covered (front ++ back) address ∨ begin ≤ address ∧ address < limit := by
  induction back generalizing begin limit with
  | nil =>
      refine ⟨h.insert hlt hbegin hlimit hfront fun _ hmem => absurd hmem List.not_mem_nil, ?_⟩
      intro address
      rw [covered_append, covered_append, covered_cons, or_comm (a := _ ∧ _), or_assoc]
      rfl
  | cons range rest ih =>
      obtain ⟨first, last⟩ := range
      obtain ⟨hbefore, htail, hcross⟩ := Separated.append_iff.mp h
      obtain ⟨⟨hvalid, hfirst, hlast⟩, hlater, hrest⟩ : (first < last ∧ unit ∣ first ∧
        unit ∣ last) ∧ (∀ later ∈ rest, last < later.1) ∧ _ := Separated.cons_iff.mp htail
      have hreach : begin ≤ last := hback (first, last) List.mem_cons_self
      rw [occupyLoop]
      split_ifs with hmerge
      · have hkept : Separated unit (front ++ rest) := Separated.append_iff.mpr ⟨hbefore, hrest,
          fun range hmem later hin => hcross range hmem later (List.mem_cons_of_mem _ hin)⟩
        have hmin : unit ∣ min begin first := by
          rcases Nat.le_total begin first with hle | hle
          · exact (Nat.min_eq_left hle).symm ▸ hbegin
          · exact (Nat.min_eq_right hle).symm ▸ hfirst
        have hmax : unit ∣ max limit last := by
          rcases Nat.le_total limit last with hle | hle
          · exact (Nat.max_eq_right hle).symm ▸ hlast
          · exact (Nat.max_eq_left hle).symm ▸ hlimit
        obtain ⟨hseparated, hcovered⟩ := ih hkept
          (fun range hmem => lt_min (hfront range hmem)
            (hcross range hmem (first, last) List.mem_cons_self))
          (fun range hmem => Nat.le_trans (Nat.min_le_left _ _)
            (hback range (List.mem_cons_of_mem _ hmem)))
          (Nat.lt_of_le_of_lt (Nat.min_le_left _ _) (Nat.lt_of_lt_of_le hlt (Nat.le_max_left _ _)))
          hmin hmax
        refine ⟨hseparated, fun address => ?_⟩
        rw [hcovered, covered_append, covered_append, covered_cons]
        grind
      · have hgap : limit < first := Nat.lt_of_not_le hmerge
        refine ⟨h.insert hlt hbegin hlimit hfront ?_, fun address => ?_⟩
        · intro later hmem
          rcases List.mem_cons.mp hmem with heq | hin
          · exact heq ▸ hgap
          · exact Nat.lt_trans hgap (Nat.lt_trans hvalid (hlater later hin))
        · rw [covered_append, covered_append, covered_cons, or_comm (a := _ ∧ _), or_assoc]

theorem occupyRange_spec {prepared : Nat} (h : Separated unit ranges) (hlt : begin < limit)
    (hbegin : unit ∣ begin) (hlimit : unit ∣ limit) (hprepared : 0 < prepared) :
    ∃ after, occupyRange begin limit ranges prepared = some (after, prepared - 1) ∧
      Separated unit after ∧
      ∀ address, Covered after address ↔
        Covered ranges address ∨ begin ≤ address ∧ address < limit := by
  obtain ⟨hsplit, hfront, hback⟩ := seek_spec begin (fun last => last ≥ begin) h (fun _ hlast => decide_eq_true (Nat.le_of_lt hlast))
    fun _ hlast => of_decide_eq_true hlast
  have hparts := h
  rw [← hsplit] at hparts
  obtain ⟨hseparated, hcovered⟩ := occupyLoop_spec hparts
    (fun range hmem => Nat.lt_of_not_le (of_decide_eq_false (hfront range hmem)))
    (fun range hmem => of_decide_eq_true (hback range hmem)) hlt hbegin hlimit
  obtain ⟨hbefore, htail, hcross⟩ := Separated.append_iff.mp hseparated
  have hinsert := insertNode_between
    (fun range hmem => Nat.lt_trans (hbefore.valid range hmem).1
      (hcross range hmem _ List.mem_cons_self))
    (fun range hmem => Nat.lt_trans (htail.valid _ List.mem_cons_self).1
      ((Separated.cons_iff.mp htail).2.1 range hmem))
  rw [hsplit] at hcovered
  refine ⟨_, ?_, hseparated, hcovered⟩
  rw [occupyRange, extractNode_pos hprepared, Option.map_some, hinsert]

end Mmltk.Storage
