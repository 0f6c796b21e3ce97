import Mmltk.Wire.ReaderSpec

namespace Mmltk.Wire

/-! The reader accepts exactly the well-formed items that fit its budgets. -/

abbrev Item.Canonical (item : Item) : Prop :=
  item.WellFormed CanonicalFloatEncoding.Canonical

namespace Reader

/-- A read within budget: what was consumed, and how deep and how many it was. -/
structure Consumes (reader : Reader) (depth : Nat) (before : Cursor) (taken : Bytes)
    (count height : Nat) (after : Cursor) : Prop where
  reads : reader.Reads before taken count after
  depth_le : depth + height ≤ reader.limits.maxDepth
  items_le : after.items ≤ reader.limits.maxItems

theorem readScalarItem_sound {reader : Reader} {path : Path} {depth : Nat}
    {before after : Cursor} {result : Value}
    (h : reader.readScalarItem path depth before = .ok (result, after)) :
    ∃ item : Item, item.isScalar = true ∧ item.Canonical ∧ item.value = result ∧
      reader.Consumes depth before item.encoding 1 0 after := by
  unfold readScalarItem at h
  split at h
  · contradiction
  · next head middle hhead =>
    obtain ⟨hbytes, hdepth, hitems, initial, hreads, rfl⟩ := itemHead_eq_ok.mp hhead
    obtain ⟨item, tail, hitem, htail, hvalue⟩ := readFlatScalar_sound hbytes h
    refine ⟨item, hitem.scalar, hitem.wellFormed, hvalue, ?_, hdepth, ?_⟩
    · rw [hitem.encoding_eq]
      exact hreads.trans htail
    · rw [htail.items_eq, hreads.items_eq]
      omega

theorem ofSigned_ne_text (value : Int64) (payload : Bytes) :
    Value.ofSigned value ≠ .text payload := by
  unfold Value.ofSigned
  split <;> simp

theorem readObjectKey_sound {reader : Reader} {path : Path} {depth : Nat}
    {before after : Cursor} {key : Bytes}
    (h : reader.readObjectKey path depth before = .ok (key, after)) :
    (key.length < 2 ^ 64 ∧ Text.WellFormed key) ∧
      reader.Consumes depth before (textBytes key) 1 0 after := by
  unfold readObjectKey at h
  split at h
  · contradiction
  · next payload middle hscalar =>
    obtain ⟨item, hkind, hcanonical, hvalue, hconsumes⟩ := readScalarItem_sound hscalar
    rw [Except.ok.injEq, Prod.mk.injEq] at h
    obtain ⟨rfl, rfl⟩ := h
    cases item with
    | text key =>
        rw [Item.value, Value.text.injEq] at hvalue
        subst hvalue
        exact ⟨hcanonical, hconsumes⟩
    | negative argument => exact absurd hvalue (ofSigned_ne_text _ _)
    | null => cases hvalue
    | bool value => cases hvalue
    | unsigned argument => cases hvalue
    | float encoding => cases hvalue
    | bytes key => cases hvalue
    | array items => cases hvalue
    | object members => cases hvalue
  · contradiction

/-- What the element reader promises about each item it returns. -/
def ElementSound (reader : Reader) (depth : Nat)
    (read : Cursor → Except Error (Value × Cursor)) : Prop :=
  ∀ before result after, read before = .ok (result, after) →
    ∃ item : Item, item.Canonical ∧ item.value = result ∧
      reader.Consumes depth before item.encoding item.count item.height after

theorem readElements_sound {reader : Reader} {depth : Nat}
    {read : Cursor → Except Error (Value × Cursor)}
    (hread : reader.ElementSound (depth + 1) read)
    {count : Nat} {before after : Cursor} {results : List Value}
    (hdepth : depth ≤ reader.limits.maxDepth)
    (hitems : before.items ≤ reader.limits.maxItems)
    (h : readElements read count before = .ok (results, after)) :
    ∃ items : List Item, items.length = count ∧
      Item.WellFormedItems CanonicalFloatEncoding.Canonical items ∧
      Item.valueItems items = results ∧
      reader.Consumes depth before (Item.encodingItems items) (Item.countItems items)
        (Item.heightItems items) after := by
  induction count generalizing before results with
  | zero =>
      rw [readElements, Except.ok.injEq, Prod.mk.injEq] at h
      obtain ⟨rfl, rfl⟩ := h
      exact ⟨[], rfl, trivial, rfl, Reads.refl reader before, hdepth, hitems⟩
  | succ count ih =>
      rw [readElements] at h
      split at h
      · contradiction
      · next value middle hvalue =>
        split at h
        · contradiction
        · next values last hvalues =>
          rw [Except.ok.injEq, Prod.mk.injEq] at h
          obtain ⟨rfl, rfl⟩ := h
          obtain ⟨item, hitem, rfl, hfirst⟩ := hread _ _ _ hvalue
          obtain ⟨items, rfl, hrest, rfl, hlater⟩ := ih hfirst.items_le hvalues
          refine ⟨item :: items, rfl, ⟨hitem, hrest⟩, rfl,
            hfirst.reads.trans hlater.reads, ?_, hlater.items_le⟩
          have := hfirst.depth_le
          have := hlater.depth_le
          rw [Item.heightItems]
          omega

theorem readMembers_sound {reader : Reader} {path : Path} {depth : Nat}
    {readKey : Cursor → Except Error (Bytes × Cursor)}
    {readValue : DecodePathElement → Cursor → Except Error (Value × Cursor)}
    (hkey : ∀ before key after, readKey before = .ok (key, after) →
      (key.length < 2 ^ 64 ∧ Text.WellFormed key) ∧
        reader.Consumes (depth + 1) before (textBytes key) 1 0 after)
    (hread : ∀ element, reader.ElementSound (depth + 1) (readValue element))
    {count : Nat} {names : List Bytes} {objectKind : Bytes} {before after : Cursor}
    {results : List (Bytes × Value)}
    (hdepth : depth ≤ reader.limits.maxDepth)
    (hitems : before.items ≤ reader.limits.maxItems)
    (h : readMembers path readKey readValue count names objectKind before =
      .ok (results, after)) :
    ∃ members : List (Bytes × Item), members.length = count ∧
      (members.map Prod.fst).Nodup ∧ (∀ name ∈ names, name ∉ members.map Prod.fst) ∧
      Item.WellFormedMembers CanonicalFloatEncoding.Canonical members ∧
      Item.valueMembers members = results ∧
      reader.Consumes depth before (Item.encodingMembers members)
        (Item.countMembers members) (Item.heightMembers members) after := by
  induction count generalizing before results names objectKind with
  | zero =>
      rw [readMembers, Except.ok.injEq, Prod.mk.injEq] at h
      obtain ⟨rfl, rfl⟩ := h
      exact ⟨[], rfl, List.nodup_nil, fun _ _ => List.not_mem_nil, trivial, rfl,
        Reads.refl reader before, hdepth, hitems⟩
  | succ count ih =>
      rw [readMembers] at h
      split at h
      · contradiction
      · next name afterKey hname =>
        split at h
        · contradiction
        · next hfresh =>
          split at h
          · contradiction
          · next value afterValue hvalue =>
            split at h
            · contradiction
            · next members last hmembers =>
              rw [Except.ok.injEq, Prod.mk.injEq] at h
              obtain ⟨rfl, rfl⟩ := h
              obtain ⟨hname, hkeyRead⟩ := hkey _ _ _ hname
              obtain ⟨item, hitem, rfl, hvalueRead⟩ := hread _ _ _ _ hvalue
              obtain ⟨members, rfl, hnodup, hdisjoint, hrest, rfl, hlater⟩ :=
                ih hvalueRead.items_le hmembers
              refine ⟨(name, item) :: members, rfl, ?_, ?_, ⟨hname, hitem, hrest⟩, rfl,
                hkeyRead.reads.trans (hvalueRead.reads.trans hlater.reads), ?_,
                hlater.items_le⟩
              · rw [List.map_cons, List.nodup_cons]
                exact ⟨hdisjoint name List.mem_cons_self, hnodup⟩
              · intro other hother hmember
                rw [List.map_cons, List.mem_cons] at hmember
                rcases hmember with rfl | hmember
                · exact hfresh hother
                · exact hdisjoint other (List.mem_cons_of_mem _ hother) hmember
              · have := hvalueRead.depth_le
                have := hlater.depth_le
                rw [Item.heightMembers]
                omega

theorem readItem_sound (reader : Reader) (levels depth : Nat) (path : Path) :
    reader.ElementSound depth (reader.readItem levels depth path) := by
  induction levels generalizing depth path with
  | zero =>
      intro before result after h
      rw [readItem] at h
      split at h <;> contradiction
  | succ levels ih =>
      intro before result after h
      rw [readItem] at h
      split at h
      · contradiction
      · next head middle hhead =>
        split at h
        · -- a scalar: the head and body together are `readScalarItem`
          have hscalar : reader.readScalarItem path depth before = .ok (result, after) := by
            rw [readScalarItem, hhead]
            exact h
          obtain ⟨item, hkind, hitem, hvalue, hconsumes⟩ := readScalarItem_sound hscalar
          have hsizes : item.count = 1 ∧ item.height = 0 := by
            cases item <;> first | exact ⟨rfl, rfl⟩ | contradiction
          refine ⟨item, hitem, hvalue, ?_⟩
          rw [hsizes.1, hsizes.2]
          exact hconsumes
        · next hmajor =>
          obtain ⟨hbytes, hdepth, hitems, initial, hinitial, rfl⟩ := itemHead_eq_ok.mp hhead
          have hmask : initial.toNat &&& 31 = initial.toNat % 32 :=
            Nat.and_two_pow_sub_one_eq_mod _ 5
          have hadditional : initial.toNat &&& 31 < 32 := by omega
          dsimp only at hmajor h
          split at h
          · contradiction
          · next count start hcount =>
            obtain ⟨hbound, hargument, hstart⟩ := (sizeArgument_eq_ok hadditional).mp hcount
            have hbudget : start.items ≤ reader.limits.maxItems := by
              rw [hstart.items_eq, hinitial.items_eq]
              omega
            have hlead : ∀ {major : Nat}, initial.toNat >>> 5 = major → major < 8 →
                reader.Reads before (headBytes major count) 1 start := by
              intro major hequal hlt
              have hinitialByte : initial = initialByte major (headAdditional count) :=
                (initialByte_fields hlt (by rw [hargument]; exact hadditional)).mpr
                  ⟨hequal, hargument.symm⟩
              rw [headBytes, ← hinitialByte]
              exact hinitial.trans hstart
            split at h
            · next harray =>
              split at h
              · contradiction
              · split at h
                · contradiction
                · split at h
                  · contradiction
                  · next values last hvalues =>
                    rw [Except.ok.injEq, Prod.mk.injEq] at h
                    obtain ⟨rfl, rfl⟩ := h
                    obtain ⟨items, rfl, hwellFormed, rfl, hconsumes⟩ :=
                      readElements_sound (ih (depth + 1) path) hdepth hbudget hvalues
                    exact ⟨.array items, ⟨hbound, hwellFormed⟩, rfl,
                      (hlead harray (by decide)).trans hconsumes.reads,
                      hconsumes.depth_le, hconsumes.items_le⟩
            · next harray =>
              have hobject : initial.toNat >>> 5 = 5 := by omega
              split at h
              · contradiction
              · split at h
                · contradiction
                · split at h
                  · contradiction
                  · next members last hmembers =>
                    rw [Except.ok.injEq, Prod.mk.injEq] at h
                    obtain ⟨rfl, rfl⟩ := h
                    obtain ⟨members, rfl, hnodup, -, hwellFormed, rfl, hconsumes⟩ :=
                      readMembers_sound (fun _ _ _ => readObjectKey_sound)
                        (fun element => ih (depth + 1) (path ++ [element])) hdepth hbudget
                        hmembers
                    exact ⟨.object members, ⟨hbound, hnodup, hwellFormed⟩, rfl,
                      (hlead hobject (by decide)).trans hconsumes.reads,
                      hconsumes.depth_le, hconsumes.items_le⟩

/-! Completeness: a well-formed item that fits is read back. -/

theorem length_le_countItems (items : List Item) :
    items.length ≤ Item.countItems items := by
  induction items with
  | nil => exact Nat.le_refl _
  | cons item items ih =>
      have hone : 1 ≤ item.count := by
        cases item <;> simp only [Item.count] <;> omega
      rw [List.length_cons, Item.countItems]
      omega

theorem two_mul_length_le_countMembers (members : List (Bytes × Item)) :
    2 * members.length ≤ Item.countMembers members := by
  induction members with
  | nil => exact Nat.le_refl _
  | cons member members ih =>
      obtain ⟨key, item⟩ := member
      have hone : 1 ≤ item.count := by
        cases item <;> simp only [Item.count] <;> omega
      rw [List.length_cons, Item.countMembers]
      omega

theorem itemHead_of_consumes {reader : Reader} (path : Path) {depth count : Nat}
    {initial : UInt8} {tail : Bytes} {before after : Cursor}
    (hbytes : reader.input.size ≤ reader.limits.maxBytes)
    (hdepth : depth ≤ reader.limits.maxDepth)
    (hitems : before.items < reader.limits.maxItems)
    (h : reader.Reads before (initial :: tail) (1 + count) after) :
    ∃ middle, reader.itemHead path depth before =
        .ok (⟨initial.toNat, initial.toNat >>> 5, initial.toNat &&& 31⟩, middle) ∧
      reader.Reads before [initial] 1 middle ∧ reader.Reads middle tail count after := by
  obtain ⟨middle, hinitial, htail⟩ :=
    Reads.split (show reader.Reads before ([initial] ++ tail) (1 + count) after from h)
  exact ⟨middle, itemHead_eq_ok.mpr ⟨hbytes, hdepth, hitems, initial, hinitial, rfl⟩,
    hinitial, htail⟩

/-- Everything the reader needs to succeed on an item other than its bytes. -/
structure Admits (reader : Reader) : Prop where
  bytes_le : reader.input.size ≤ reader.limits.maxBytes
  policy_eq : reader.limits.allocationPolicy = none

theorem scalar_major {item : Item} {initial : UInt8} {tail : Bytes}
    (h : ScalarItem initial item tail) :
    initial.toNat >>> 5 ≠ 4 ∧ initial.toNat >>> 5 ≠ 5 := by
  obtain ⟨hscalar, hcanonical, hencoding⟩ := h
  have hhead : ∀ {major argument : Nat} {rest : Bytes}, major < 4 → argument < 2 ^ 64 →
      headBytes major argument ++ rest = initial :: tail →
      initial.toNat >>> 5 ≠ 4 ∧ initial.toNat >>> 5 ≠ 5 := by
    intro major argument rest hmajor hargument hbytes
    rw [headBytes, List.cons_append, List.cons.injEq] at hbytes
    obtain ⟨hfield, -, -⟩ := headBytes_fields (by omega : major < 8) hargument
      (show headBytes major argument = initial :: headTail argument by
        rw [headBytes, hbytes.1])
    omega
  cases item with
  | null => cases hencoding; decide
  | bool value => cases value <;> cases hencoding <;> decide
  | float encoding =>
      cases hencoding
      cases encoding.width <;> decide
  | unsigned argument =>
      exact hhead (by decide : 0 < 4) hcanonical
        (by rw [List.append_nil]; exact hencoding)
  | negative argument =>
      have hargument : argument < 2 ^ 63 := hcanonical
      exact hhead (by decide : 1 < 4) (by omega : argument < 2 ^ 64)
        (by rw [List.append_nil]; exact hencoding)
  | bytes payload => exact hhead (by decide) hcanonical hencoding
  | text payload => exact hhead (by decide) hcanonical.1 hencoding
  | array items => contradiction
  | object members => contradiction

/-- A scalar within budget has a head the reader takes and a body it accepts. -/
theorem scalar_parts {reader : Reader} (hbytes : reader.input.size ≤ reader.limits.maxBytes)
    (policy : Bool) (hpolicy : policy = true → reader.limits.allocationPolicy = none)
    (path : Path) {depth : Nat} {item : Item} {before after : Cursor}
    (hscalar : item.isScalar = true) (hcanonical : item.Canonical)
    (h : reader.Consumes depth before item.encoding 1 0 after) :
    ∃ head middle, reader.itemHead path depth before = .ok (head, middle) ∧
      (head.major ≠ 4 ∧ head.major ≠ 5) ∧
      reader.readFlatScalar path head policy middle = .ok (item.value, after) := by
  obtain ⟨initial, tail, hencoding⟩ : ∃ initial tail, item.encoding = initial :: tail := by
    cases item <;> exact ⟨_, _, rfl⟩
  obtain ⟨hreads, hdepth, hitems⟩ := h
  rw [hencoding] at hreads
  have hroom : before.items < reader.limits.maxItems := by
    rw [hreads.items_eq] at hitems
    omega
  obtain ⟨middle, hhead, -, htail⟩ :=
    itemHead_of_consumes path hbytes (by omega : depth ≤ _) hroom
      (show reader.Reads before (initial :: tail) (1 + 0) after from hreads)
  exact ⟨_, middle, hhead, scalar_major ⟨hscalar, hcanonical, hencoding⟩,
    readFlatScalar_complete hbytes hpolicy ⟨hscalar, hcanonical, hencoding⟩ htail⟩

/-- The head of a container, or of a text, within budget and the count that it carries. -/
theorem container_parts {reader : Reader} (hbytes : reader.input.size ≤ reader.limits.maxBytes)
    (path : Path) {depth major length count height : Nat} {payload : Bytes}
    {before after : Cursor} (hmajor : major < 8) (hlength : length < 2 ^ 64)
    (h : reader.Consumes depth before (headBytes major length ++ payload) (1 + count) height
      after) :
    ∃ head middle start, reader.itemHead path depth before = .ok (head, middle) ∧
      head.major = major ∧ reader.sizeArgument path head.additional middle = .ok (length, start) ∧
      reader.Consumes depth start payload count height after := by
  obtain ⟨hreads, hdepth, hitems⟩ := h
  have hroom : before.items < reader.limits.maxItems := by
    rw [hreads.items_eq] at hitems
    omega
  obtain ⟨middle, hhead, hinitial, htail⟩ :=
    itemHead_of_consumes path hbytes (by omega : depth ≤ _) hroom
      (show reader.Reads before (initialByte major (headAdditional length) ::
        (headTail length ++ payload)) (1 + count) after from hreads)
  obtain ⟨start, hargument, hpayload⟩ := Reads.split
    (show reader.Reads middle (headTail length ++ payload) (0 + count) after by
      rwa [Nat.zero_add])
  obtain ⟨hfield, hadditional, -⟩ := headBytes_fields hmajor hlength
    (show headBytes major length =
      initialByte major (headAdditional length) :: headTail length from rfl)
  refine ⟨_, middle, start, hhead, hfield, ?_, hpayload, hdepth, hitems⟩
  have hmask : (initialByte major (headAdditional length)).toNat &&& 31 =
      (initialByte major (headAdditional length)).toNat % 32 :=
    Nat.and_two_pow_sub_one_eq_mod _ 5
  exact (sizeArgument_eq_ok (by dsimp only; omega)).mpr ⟨hlength, hadditional.symm, hargument⟩

theorem readObjectKey_complete {reader : Reader} (hadmits : reader.Admits) {path : Path}
    {depth : Nat} {key : Bytes} {before after : Cursor}
    (hkey : key.length < 2 ^ 64 ∧ Text.WellFormed key)
    (h : reader.Consumes depth before (textBytes key) 1 0 after) :
    reader.readObjectKey path depth before = .ok (key, after) := by
  obtain ⟨head, middle, hhead, -, hbody⟩ :=
    scalar_parts hadmits.bytes_le true (fun _ => hadmits.policy_eq) path
      (show (Item.text key).isScalar = true from rfl) hkey h
  rw [readObjectKey, readScalarItem, hhead]
  dsimp only
  rw [hbody]
  rfl

theorem readItem_scalar {reader : Reader} (hadmits : reader.Admits) {levels depth : Nat}
    {path : Path} {item : Item} {before after : Cursor} (hscalar : item.isScalar = true)
    (hlevels : depth + levels = reader.limits.maxDepth + 1) (hcanonical : item.Canonical)
    (h : reader.Consumes depth before item.encoding 1 0 after) :
    reader.readItem levels depth path before = .ok (item.value, after) := by
  cases levels with
  | zero =>
      have := h.depth_le
      omega
  | succ levels =>
      obtain ⟨head, middle, hhead, hmajor, hbody⟩ :=
        scalar_parts hadmits.bytes_le true (fun _ => hadmits.policy_eq) path hscalar
          hcanonical h
      rw [readItem, hhead]
      dsimp only
      rw [if_pos hmajor, hbody]

theorem readItem_container {reader : Reader} (hadmits : reader.Admits)
    (levels : Nat) {depth : Nat} (path : Path) {major length count height : Nat} {payload : Bytes}
    {before after : Cursor} (hmajor : major = 4 ∨ major = 5) (hlength : length < 2 ^ 64)
    (h : reader.Consumes depth before (headBytes major length ++ payload) (1 + count) height
      after) :
    ∃ start, reader.Consumes depth start payload count height after ∧
      start.items + count = after.items ∧
      reader.readItem (levels + 1) depth path before =
        (if major = 4 then
          if !fitsRemaining length start.items reader.limits.maxItems then
            .error (error path start .limitExceeded)
          else
            match readElements (reader.readItem levels (depth + 1) path) length start with
            | .error failure => .error failure
            | .ok (values, cursor) => .ok (.array values, cursor)
        else
          if (reader.limits.maxItems - start.items) / 2 < length then
            .error (error path start .limitExceeded)
          else
            match readMembers path (reader.readObjectKey path (depth + 1))
                (fun element => reader.readItem levels (depth + 1) (path ++ [element]))
                length [] [] start with
            | .error failure => .error failure
            | .ok (members, cursor) => .ok (.object members, cursor)) := by
  obtain ⟨head, middle, start, hhead, hfield, hsize, hpayload⟩ :=
    container_parts hadmits.bytes_le path (by omega : major < 8) hlength h
  refine ⟨start, hpayload, hpayload.reads.items_eq.symm, ?_⟩
  have hallowed : ∀ kind, reader.allocationAllowed path kind length = true := by
    intro kind
    rw [allocationAllowed, hadmits.policy_eq]
  rw [readItem, hhead]
  dsimp only
  rw [hfield, if_neg (by omega), hsize]
  dsimp only
  simp only [hallowed]
  rfl

mutual

theorem readItem_complete {reader : Reader} (hadmits : reader.Admits) :
    ∀ (item : Item) {levels depth : Nat} {path : Path} {before after : Cursor},
      depth + levels = reader.limits.maxDepth + 1 → item.Canonical →
      reader.Consumes depth before item.encoding item.count item.height after →
      reader.readItem levels depth path before = .ok (item.value, after)
  | .array items, levels, depth, path, before, after, hlevels, hcanonical, hconsumes => by
      cases levels with
      | zero => have := hconsumes.depth_le; omega
      | succ levels =>
          obtain ⟨hlength, hitems⟩ := hcanonical
          obtain ⟨start, hpayload, hcount, hread⟩ :=
            readItem_container hadmits levels path (.inl rfl) hlength
              hconsumes
          have hroom : fitsRemaining items.length start.items reader.limits.maxItems = true := by
            have := length_le_countItems items
            have := hpayload.items_le
            simp only [fitsRemaining, Bool.and_eq_true, decide_eq_true_eq]
            omega
          rw [hread, if_pos rfl, hroom,
            readElements_complete hadmits items (by omega) hitems hpayload]
          rfl
  | .object members, levels, depth, path, before, after, hlevels, hcanonical, hconsumes => by
      cases levels with
      | zero => have := hconsumes.depth_le; omega
      | succ levels =>
          obtain ⟨hlength, hnodup, hmembers⟩ := hcanonical
          obtain ⟨start, hpayload, hcount, hread⟩ :=
            readItem_container hadmits levels path (.inr rfl) hlength
              hconsumes
          have hroom : ¬ (reader.limits.maxItems - start.items) / 2 < members.length := by
            have := two_mul_length_le_countMembers members
            have := hpayload.items_le
            omega
          rw [hread, if_neg (by decide), if_neg hroom,
            readMembers_complete hadmits members (by omega) hnodup
              (fun _ hname => absurd hname List.not_mem_nil) hmembers hpayload]
          rfl
  | .null, _, _, _, _, _, hlevels, hcanonical, hconsumes =>
      readItem_scalar hadmits rfl hlevels hcanonical hconsumes
  | .bool _, _, _, _, _, _, hlevels, hcanonical, hconsumes =>
      readItem_scalar hadmits rfl hlevels hcanonical hconsumes
  | .unsigned _, _, _, _, _, _, hlevels, hcanonical, hconsumes =>
      readItem_scalar hadmits rfl hlevels hcanonical hconsumes
  | .negative _, _, _, _, _, _, hlevels, hcanonical, hconsumes =>
      readItem_scalar hadmits rfl hlevels hcanonical hconsumes
  | .float _, _, _, _, _, _, hlevels, hcanonical, hconsumes =>
      readItem_scalar hadmits rfl hlevels hcanonical hconsumes
  | .bytes _, _, _, _, _, _, hlevels, hcanonical, hconsumes =>
      readItem_scalar hadmits rfl hlevels hcanonical hconsumes
  | .text _, _, _, _, _, _, hlevels, hcanonical, hconsumes =>
      readItem_scalar hadmits rfl hlevels hcanonical hconsumes

theorem readElements_complete {reader : Reader} (hadmits : reader.Admits) :
    ∀ (items : List Item) {levels depth : Nat} {path : Path} {before after : Cursor},
      depth + levels = reader.limits.maxDepth →
      Item.WellFormedItems CanonicalFloatEncoding.Canonical items →
      reader.Consumes depth before (Item.encodingItems items) (Item.countItems items)
        (Item.heightItems items) after →
      readElements (reader.readItem levels (depth + 1) path) items.length before =
        .ok (Item.valueItems items, after)
  | [], levels, depth, path, before, after, hlevels, hitems, hconsumes => by
      rw [hconsumes.reads.after_eq]
      rfl
  | item :: rest, levels, depth, path, before, after, hlevels, hitems, hconsumes => by
      obtain ⟨hreads, hdepth, hbudget⟩ := hconsumes
      rw [Item.heightItems] at hdepth
      obtain ⟨middle, hfirst, hlater⟩ := Reads.split
        (show reader.Reads before (item.encoding ++ Item.encodingItems rest)
          (item.count + Item.countItems rest) after from hreads)
      have hmiddle : middle.items ≤ reader.limits.maxItems := by
        have := hlater.items_eq
        omega
      rw [List.length_cons, readElements,
        readItem_complete hadmits item (by omega) hitems.1 ⟨hfirst, by omega, hmiddle⟩]
      dsimp only
      rw [readElements_complete hadmits rest hlevels hitems.2 ⟨hlater, by omega, hbudget⟩]
      rfl

theorem readMembers_complete {reader : Reader} (hadmits : reader.Admits) :
    ∀ (members : List (Bytes × Item)) {levels depth : Nat} {path : Path}
      {names : List Bytes} {objectKind : Bytes} {before after : Cursor},
      depth + levels = reader.limits.maxDepth →
      (members.map Prod.fst).Nodup → (∀ name ∈ names, name ∉ members.map Prod.fst) →
      Item.WellFormedMembers CanonicalFloatEncoding.Canonical members →
      reader.Consumes depth before (Item.encodingMembers members)
        (Item.countMembers members) (Item.heightMembers members) after →
      readMembers path (reader.readObjectKey path (depth + 1))
          (fun element => reader.readItem levels (depth + 1) (path ++ [element]))
          members.length names objectKind before =
        .ok (Item.valueMembers members, after)
  | [], levels, depth, path, names, objectKind, before, after, _, _, _, _, hconsumes => by
      rw [hconsumes.reads.after_eq]
      rfl
  | (key, item) :: rest, levels, depth, path, names, objectKind, before, after, hlevels,
      hnodup, hfresh, hmembers, hconsumes => by
      obtain ⟨hreads, hdepth, hbudget⟩ := hconsumes
      obtain ⟨hkey, hitem, hrest⟩ := hmembers
      rw [Item.heightMembers] at hdepth
      rw [List.map_cons, List.nodup_cons] at hnodup
      obtain ⟨afterKey, hkeyReads, hafterKey⟩ := Reads.split
        (show reader.Reads before
          (textBytes key ++ (item.encoding ++ Item.encodingMembers rest))
          (1 + (item.count + Item.countMembers rest)) after from hreads)
      obtain ⟨afterItem, hitemReads, hlater⟩ := Reads.split hafterKey
      have hafterItem : afterItem.items ≤ reader.limits.maxItems := by
        have := hlater.items_eq
        omega
      have hafterKeyItems : afterKey.items ≤ reader.limits.maxItems := by
        have := hitemReads.items_eq
        omega
      have hnew : key ∉ names := by
        intro hmember
        exact hfresh key hmember (by rw [List.map_cons]; exact List.mem_cons_self)
      rw [List.length_cons, readMembers,
        readObjectKey_complete hadmits hkey ⟨hkeyReads, by omega, hafterKeyItems⟩]
      dsimp only
      rw [if_neg hnew,
        readItem_complete hadmits item (by omega) hitem ⟨hitemReads, by omega, hafterItem⟩]
      dsimp only
      rw [readMembers_complete hadmits rest hlevels hnodup.2 ?_ hrest
        ⟨hlater, by omega, hbudget⟩]
      · rfl
      · intro name hname hmember
        rcases List.mem_cons.mp hname with rfl | hname
        · exact hnodup.1 hmember
        · exact hfresh name hname
            (by rw [List.map_cons]; exact List.mem_cons_of_mem _ hmember)

end

end Reader

/-- Budgets under which an item is one whole message. -/
structure Item.Fits (item : Item) (limits : Limits) : Prop where
  bytes_le : item.encoding.length ≤ limits.maxBytes
  items_le : item.count ≤ limits.maxItems
  depth_le : item.height ≤ limits.maxDepth

theorem decode_sound {segments : ByteSegments} {limits : Limits} {result : Value}
    (h : decode segments limits = .ok result) :
    ∃ item : Item, item.Canonical ∧ item.Fits limits ∧ item.value = result ∧
      item.encoding = segments.bytes := by
  rw [decode, Reader.read] at h
  dsimp only at h
  split at h
  · contradiction
  · next hbytes =>
    split at h
    · contradiction
    · next value cursor hitem =>
      split at h
      · contradiction
      · next hfinish =>
        cases h
        obtain ⟨item, hcanonical, rfl, hreads, hdepth, hitems⟩ :=
          Reader.readItem_sound _ _ _ _ _ _ _ hitem
        have hoffset : cursor.offset = segments.size := by
          rw [Reader.finish] at hfinish
          split at hfinish
          · contradiction
          · next hend => exact not_not.mp hend
        have hrest := hreads.rest_eq
        rw [Reader.rest, Reader.rest, hoffset, List.drop_zero,
          List.drop_eq_nil_of_le (by rw [ByteSegments.length_bytes]), List.append_nil]
          at hrest
        have hlength := hreads.offset_eq
        have hcount := hreads.items_eq
        dsimp only at hlength hcount hdepth hitems
        refine ⟨item, hcanonical, ⟨by omega, by omega, by omega⟩, rfl, hrest.symm⟩

theorem decode_complete {segments : ByteSegments} {limits : Limits} {item : Item}
    (hpolicy : limits.allocationPolicy = none) (hcanonical : item.Canonical)
    (hfits : item.Fits limits) (hencoding : item.encoding = segments.bytes) :
    decode segments limits = .ok item.value := by
  have hsize : item.encoding.length = segments.size := by
    rw [hencoding, ByteSegments.length_bytes]
  have hbytes : segments.size ≤ limits.maxBytes := hsize ▸ hfits.bytes_le
  let reader : Reader := ⟨segments, limits⟩
  have hreads : reader.Reads ⟨0, 0⟩ item.encoding item.count
      ⟨item.encoding.length, item.count⟩ := by
    refine ⟨?_, (Nat.zero_add _).symm, (Nat.zero_add _).symm⟩
    rw [Reader.rest, Reader.rest, List.drop_zero, hencoding,
      List.drop_eq_nil_of_le (Nat.le_refl _), List.append_nil]
  have hitem : reader.readItem (limits.maxDepth + 1) 0 [] ⟨0, 0⟩ =
      .ok (item.value, ⟨item.encoding.length, item.count⟩) :=
    Reader.readItem_complete ⟨hbytes, hpolicy⟩ item (Nat.zero_add _) hcanonical
      ⟨hreads, by rw [Nat.zero_add]; exact hfits.depth_le, hfits.items_le⟩
  rw [decode, Reader.read, if_neg (Nat.not_lt.mpr hbytes)]
  dsimp only at hitem ⊢
  rw [hitem]
  dsimp only
  rw [Reader.finish, if_neg (by rw [not_not]; exact hsize)]

end Mmltk.Wire
