import Kv.Sds.Header

/-!
The entry of a hash field (entry.c): a field, its value and an optional expiry
kept in one allocation. The entry pointer is the field's sds; what lies around
it is told by the aux bits of the field's flags byte:
-/

namespace Kv.Hash

open Kv.Sds

def expiryNone : Int := -1

def embedValueMaxAllocSize : Nat := 128

inductive FieldSdsAuxBit where
  | entryHasExpiry
  | entryHasValuePtr
  | entryHasStringRef
  deriving DecidableEq, Repr

def FieldSdsAuxBit.index : FieldSdsAuxBit → Nat
  | entryHasExpiry => 0
  | entryHasValuePtr => 1
  | entryHasStringRef => 2

structure FieldSds where
  sds : SdsString
  aux : BitVec 5
  deriving DecidableEq, Repr

def sdsGetAuxBit (s : FieldSds) (bit : Nat) : Bool :=
  if s.sds.type = .type5 then false else s.aux.getLsbD bit

def sdsSetAuxBit (s : FieldSds) (bit : Nat) (value : Bool) : FieldSds :=
  if s.sds.type = .type5 then s
  else { s with aux := if value then s.aux ||| 1#5 <<< bit else s.aux &&& ~~~(1#5 <<< bit) }

structure StringRef where
  buf : Nat
  len : Nat
  deriving DecidableEq, Repr

inductive ValueObject where
  | sds (value : SdsString)
  | stringRef (ref : StringRef)
  deriving DecidableEq, Repr

structure Entry where
  usable : Nat
  expirySlot : Option Int
  valueSlot : Option (Option ValueObject)
  field : FieldSds
  value : Option SdsString
  deriving DecidableEq, Repr

inductive EntryValue where
  | sds (value : SdsString)
  | stringRef (buf len : Nat)
  | null
  deriving DecidableEq, Repr

inductive Contents where
  | bytes (content : List UInt8)
  | ref (buf len : Nat)
  deriving DecidableEq, Repr

def EntryValue.contents : EntryValue → Option Contents
  | .sds v => some (.bytes (sdsContent v))
  | .stringRef buf len => some (.ref buf len)
  | .null => none

section Access

def entryGetField (e : Entry) : SdsString := e.field.sds

def entryHasValuePtr (e : Entry) : Bool := sdsGetAuxBit e.field FieldSdsAuxBit.entryHasValuePtr.index

def entryHasEmbeddedValue (e : Entry) : Bool := !entryHasValuePtr e

def entryHasStringRef (e : Entry) : Bool :=
  entryHasValuePtr e && sdsGetAuxBit e.field FieldSdsAuxBit.entryHasStringRef.index

def entryHasExpiry (e : Entry) : Bool := sdsGetAuxBit e.field FieldSdsAuxBit.entryHasExpiry.index

def entryGetValueRef (e : Entry) : Option (Option ValueObject) :=
  if entryHasValuePtr e then e.valueSlot else none

def entryGetStringRefRef (e : Entry) : Option (Option StringRef) :=
  if entryHasStringRef e then
    match entryGetValueRef e with
    | some none => some none
    | some (some (.stringRef r)) => some (some r)
    | _ => none
  else none

/-- entryGetValue. An embedded value is found past the field's content, its terminator and an
sdshdr8, so the field's bytes must end at its terminator and the value's header be an sdshdr8. -/
def entryGetValue (e : Entry) : Option EntryValue :=
  if entryHasEmbeddedValue e then
    match e.value with
    | some v =>
      if (entryGetField e).buf.length = sdslen (entryGetField e) + 1 ∧ v.type = .type8 then some (.sds v)
      else none
    | none => none
  else if entryHasStringRef e then
    (entryGetStringRefRef e).map fun r =>
      match r with
      | some r => .stringRef r.buf r.len
      | none => .null
  else
    match entryGetValueRef e with
    | some (some (.sds v)) => some (.sds v)
    | _ => none

def entryGetExpiryRef (e : Entry) : Option Int :=
  if entryHasExpiry e then e.expirySlot else none

/-- entryGetExpiry. -/
def entryGetExpiry (e : Entry) : Option Int :=
  if entryHasExpiry e then entryGetExpiryRef e else some expiryNone

def storeExpiry (e : Entry) (expiry : Int) : Option Entry :=
  if entryHasExpiry e ∧ e.expirySlot.isSome then some { e with expirySlot := some expiry } else none

def entryOffset (e : Entry) : Nat :=
  (if e.expirySlot.isSome then 8 else 0) + (if e.valueSlot.isSome then 8 else 0) + sdsHdrSize e.field.sds.type

/-- entryMemUsage. The stringRef's block is asked of the allocator at sizeof(stringRef). -/
def entryMemUsage (a : Allocator) (e : Entry) : Option Nat := do
  let mem :=
    if entryHasEmbeddedValue e then
      sdsReqSize (sdslen (entryGetField e)) (entryGetField e).type + (if entryHasExpiry e then 8 else 0)
    else e.usable
  if entryHasStringRef e then
    match ← entryGetStringRefRef e with
    | some _ => some (mem + (a.malloc 16).length)
    | none => none
  else
    match ← entryGetValue e with
    | .sds v => some (mem + sdsAllocSize v)
    | _ => none

structure Entry.Holds (e : Entry) (field : List UInt8) (value : Contents) (expiry : Int) : Prop where
  field_valid : (entryGetField e).Valid
  field_eq : sdsContent (entryGetField e) = field
  value_eq : (entryGetValue e).bind EntryValue.contents = some value
  expiry_eq : entryGetExpiry e = some expiry
  hasExpiry : entryHasExpiry e = decide (expiry ≠ expiryNone)

end Access

section Create

structure EntryReq where
  allocSize : Nat
  embedValue : Bool
  fieldSdsType : SdsType
  fieldSize : Nat
  expirySize : Nat
  embeddedValueSize : Nat
  deriving DecidableEq, Repr

/-- entryReqSize. A value length of none is SIZE_MAX: no value. -/
def entryReqSize (fieldLen : Nat) (valueLen : Option Nat) (expiry : Int) : EntryReq :=
  let expiryAllocSize := if expiry = expiryNone then 0 else 8
  -- an SDS_TYPE_5 field has no aux bit to record the expiry
  let fieldSdsType := if sdsReqType fieldLen = .type5 ∧ 0 < expiryAllocSize then .type8 else sdsReqType fieldLen
  let fieldAllocSize := sdsReqSize fieldLen fieldSdsType
  let embeddedValueAllocSize := match valueLen with
    | some n => sdsReqSize n .type8
    | none => 0
  let allocSize := fieldAllocSize + expiryAllocSize
  match valueLen with
  | none => ⟨allocSize, false, fieldSdsType, fieldAllocSize, expiryAllocSize, embeddedValueAllocSize⟩
  | some _ =>
    if allocSize + embeddedValueAllocSize ≤ embedValueMaxAllocSize then
      ⟨allocSize + embeddedValueAllocSize, true, fieldSdsType, fieldAllocSize, expiryAllocSize,
        embeddedValueAllocSize⟩
    else if fieldSdsType = .type5 then
      -- the field must be SDS_TYPE_8 or wider to record the value pointer
      let fieldAllocSize' := sdsReqSize fieldLen .type8
      ⟨allocSize + 8 - fieldAllocSize + fieldAllocSize', false, .type8, fieldAllocSize', expiryAllocSize,
        embeddedValueAllocSize⟩
    else ⟨allocSize + 8, false, fieldSdsType, fieldAllocSize, expiryAllocSize, embeddedValueAllocSize⟩

/-- entryConstruct: the expiry, the value pointer or the embedded value, and the field written into a
block of `allocSize` bytes, then the aux bits set. -/
def entryConstruct (a : Allocator) (allocSize : Nat) (field : List UInt8) (sdsValue : Option SdsString)
    (stringrefValue : Option StringRef) (expiry : Int) (embedValue : Bool) (embeddedFieldSdsType : SdsType)
    (expirySize embeddedValueSdsSize embeddedFieldSdsSize : Nat) : Option Entry := do
  -- serverAssert: an sds value, or a stringRef not embedded, or nothing at all to embed
  if ¬((sdsValue.isNone ∧ stringrefValue.isNone ∧ embedValue = true) ∨ (sdsValue.isSome ∧ stringrefValue.isNone) ∨
      (sdsValue.isNone ∧ stringrefValue.isSome ∧ embedValue = false)) then none
  let block := a.malloc allocSize
  -- the slots before the field: the expiry, then the value pointer of a value not embedded
  let front := expirySize + (if embedValue then 0 else 8)
  if block.length < front + embeddedFieldSdsSize then none
  let value ← match embedValue, sdsValue with
    | true, some v => (sdswrite (block.drop (front + embeddedFieldSdsSize)) .type8 (sdsContent v)).map some
    | _, _ => some none
  let fieldSds ← sdswrite ((block.drop front).take embeddedFieldSdsSize) embeddedFieldSdsType field
  let fieldSds := sdsSetAuxBit ⟨fieldSds, 0⟩ FieldSdsAuxBit.entryHasValuePtr.index !embedValue
  let fieldSds := sdsSetAuxBit fieldSds FieldSdsAuxBit.entryHasExpiry.index (decide (0 < expirySize))
  let _ := embeddedValueSdsSize
  some { usable := block.length,
         expirySlot := if expirySize ≠ 0 then some expiry else none,
         valueSlot := if embedValue then none
           else some (match sdsValue with
             | some v => some (.sds v)
             | none => stringrefValue.map .stringRef),
         field := fieldSds, value }

/-- entryCreate: the value (none for NULL) is taken, the field copied. -/
def entryCreate (a : Allocator) (field : List UInt8) (value : Option SdsString) (expiry : Int) : Option Entry :=
  let r := entryReqSize field.length (value.map sdslen) expiry
  entryConstruct a r.allocSize field value none expiry r.embedValue r.fieldSdsType r.expirySize r.embeddedValueSize
    r.fieldSize

end Create

section Update

/-- entryUpdateAsStringRef: in place when the entry has a value pointer and the expiry is not added or
removed; otherwise a new entry with an SDS_TYPE_8 field, a stringRef pointer and the expiry. -/
def entryUpdateAsStringRef (a : Allocator) (e : Entry) (buf len : Nat) (expiry : Int) : Option Entry := do
  let entryExpiry ← entryGetExpiry e
  let expiryAddRemove := expiry ≠ entryExpiry ∧ (entryExpiry = expiryNone ∨ expiry = expiryNone)
  if entryHasValuePtr e ∧ ¬expiryAddRemove then
    let e ← if entryHasStringRef e then
        match ← entryGetStringRefRef e with
        | some _ => some { e with valueSlot := some (some (.stringRef ⟨buf, len⟩)) }
        | none => none
      else do
        -- a new stringRef in place of the sds, which is freed
        let _ ← entryGetValueRef e
        some { e with valueSlot := some (some (.stringRef ⟨buf, len⟩)),
                      field := sdsSetAuxBit e.field FieldSdsAuxBit.entryHasStringRef.index true }
    if expiry ≠ expiryNone then storeExpiry e expiry else some e
  else
    let field := entryGetField e
    let fieldSize := sdsReqSize (sdslen field) .type8
    let allocSize := fieldSize + 8 + (if expiry = expiryNone then 0 else 8)
    let expirySize := if expiry ≠ expiryNone then 8 else 0
    let newEntry ← entryConstruct a allocSize (sdsContent field) none (some ⟨buf, len⟩) expiry false .type8
      expirySize 8 fieldSize
    some { newEntry with field := sdsSetAuxBit newEntry.field FieldSdsAuxBit.entryHasStringRef.index true }

def entrySetValueSds (e : Entry) (value : SdsString) : Option Entry := do
  if entryHasValuePtr e = false then none
  let _ ← entryGetValueRef e
  let field :=
    if entryHasStringRef e then sdsSetAuxBit e.field FieldSdsAuxBit.entryHasStringRef.index false else e.field
  some { e with field, valueSlot := some (some (.sds value)) }

def rewriteEmbeddedValue (e : Entry) (value : SdsString) : Option Entry := do
  match ← entryGetValue e with
  | .sds oldValue =>
    let valueSize := sdsHdrSize .type8 + sdsalloc oldValue + 1
    -- the write stays inside the old value's block
    if sdsHdrSize oldValue.type + oldValue.buf.length < valueSize then none
    let written ← sdswrite ((List.replicate (sdsHdrSize oldValue.type) 0 ++ oldValue.buf).take valueSize) .type8
      (sdsContent value)
    some { e with value := some written }
  | _ => none

/-- entryUpdate: a value of none keeps the entry's own. -/
def entryUpdate (a : Allocator) (e : Entry) (value : Option SdsString) (expiry : Int) : Option Entry := do
  let field := entryGetField e
  if entryHasStringRef e ∧ value.isNone then
    -- only the expiry of a stringRef entry changes
    match ← entryGetStringRefRef e with
    | some r => entryUpdateAsStringRef a e r.buf r.len expiry
    | none => none
  else
    let updateValue := value.isSome
    let currExpirationTime ← entryGetExpiry e
    let updateExpiry := expiry ≠ currExpirationTime
    if ¬updateValue ∧ ¬updateExpiry then some e
    else
      let v ← match value with
        | some v => some v
        | none =>
          match entryGetValue e with
          | some (.sds v) => some v
          | _ => none
      let r := entryReqSize (sdslen field) (some (sdslen v)) expiry
      let currentEmbeddedAllocationSize ← if entryHasEmbeddedValue e then entryMemUsage a e else some 0
      let expiryAddRemove := updateExpiry ∧ (currExpirationTime = expiryNone ∨ expiry = expiryNone)
      let valueChangeEncoding := updateValue ∧ r.embedValue ≠ entryHasEmbeddedValue e
      let createNewEntry := expiryAddRemove ∨ valueChangeEncoding ∨
        (updateValue ∧ entryHasEmbeddedValue e ∧
          ¬(r.allocSize ≤ embedValueMaxAllocSize ∧ r.allocSize ≤ currentEmbeddedAllocationSize ∧
            currentEmbeddedAllocationSize * 3 / 4 ≤ r.allocSize))
      if ¬createNewEntry then
        -- the expiry slot is there already, and an embedded value has room where it is
        let e ← if updateExpiry then storeExpiry e expiry else some e
        if updateValue then
          if entryHasEmbeddedValue e then rewriteEmbeddedValue e v else entrySetValueSds e v
        else some e
      else
        -- an embedded value the new entry keeps is copied out of the old one first
        let v ← if ¬updateValue ∧ entryHasEmbeddedValue e then sdsdup a v else some v
        entryConstruct a r.allocSize (sdsContent field) (some v) none expiry r.embedValue r.fieldSdsType
          r.expirySize r.embeddedValueSize r.fieldSize

/-- entrySetExpiry: in place when the entry has an expiry slot and keeps an expiry. -/
def entrySetExpiry (a : Allocator) (e : Entry) (expiry : Int) : Option Entry :=
  if expiry ≠ expiryNone ∧ entryHasExpiry e then storeExpiry e expiry
  else if entryHasStringRef e then
    match entryGetStringRefRef e with
    | some (some r) => entryUpdateAsStringRef a e r.buf r.len expiry
    | _ => none
  else entryUpdate a e none expiry

end Update

section AuxBits

@[simp] theorem sds_sdsSetAuxBit (s : FieldSds) (bit : Nat) (value : Bool) :
    (sdsSetAuxBit s bit value).sds = s.sds := by
  unfold sdsSetAuxBit
  split <;> rfl

theorem getLsbD_one_shiftLeft {bit bit' : Nat} (small : bit < 5) :
    (1#5 <<< bit).getLsbD bit' = decide (bit' = bit) := by
  simp only [BitVec.getLsbD_shiftLeft, BitVec.getLsbD_one]
  by_cases same : bit' = bit
  · subst same
    simp [small]
  · simp only [same, decide_false]
    rcases Nat.lt_or_gt_of_ne same with below | above
    · simp [below]
    · simp [show bit' - bit ≠ 0 by omega]

theorem sdsGetAuxBit_sdsSetAuxBit (s : FieldSds) {bit bit' : Nat} (small : bit < 5) (value : Bool) :
    sdsGetAuxBit (sdsSetAuxBit s bit value) bit' =
      if bit' = bit then (s.sds.type != .type5 && value) else sdsGetAuxBit s bit' := by
  unfold sdsGetAuxBit sdsSetAuxBit
  by_cases five : s.sds.type = .type5
  · simp [five]
  · simp only [five, if_false]
    cases value <;> simp [getLsbD_one_shiftLeft small] <;> grind

@[simp] theorem sdsGetAuxBit_zero (s : SdsString) (bit : Nat) : sdsGetAuxBit ⟨s, 0#5⟩ bit = false := by
  simp [sdsGetAuxBit]

theorem sdsHdrSize_odd (t : SdsType) : sdsHdrSize t % 2 = 1 := by
  cases t <;> rfl

theorem entryOffset_odd (e : Entry) : entryOffset e % 2 = 1 := by
  have header := sdsHdrSize_odd e.field.sds.type
  unfold entryOffset
  split <;> split <;> omega

end AuxBits

section Layouts

variable {fieldLen n : Nat} {expiry : Int} {r : EntryReq}

theorem entryReqSize_pointer (req : entryReqSize fieldLen (some n) expiry = r) (notEmbedded : r.embedValue = false) :
    r.fieldSdsType ≠ .type5 ∧ (fieldLen : ℕ∞) ≤ sdsTypeMaxSize r.fieldSdsType ∧
      r.fieldSize = sdsReqSize fieldLen r.fieldSdsType ∧ r.expirySize = (if expiry = expiryNone then 0 else 8) ∧
      r.allocSize = r.expirySize + 8 + r.fieldSize := by
  have five := sdsReqType_recorded fieldLen
  unfold entryReqSize at req
  dsimp only at req
  split_ifs at req with promoted embedded five' <;> subst req <;> simp_all [sdsReqSize, coe_le_sdsTypeMaxSize] <;>
    omega

theorem entryReqSize_embedded (req : entryReqSize fieldLen (some n) expiry = r) (embedded : r.embedValue = true) :
    (r.fieldSdsType = .type5 → fieldLen < 32 ∧ expiry = expiryNone) ∧
      (fieldLen : ℕ∞) ≤ sdsTypeMaxSize r.fieldSdsType ∧ r.fieldSize = sdsReqSize fieldLen r.fieldSdsType ∧
      r.expirySize = (if expiry = expiryNone then 0 else 8) ∧
      r.allocSize = r.expirySize + r.fieldSize + sdsReqSize n .type8 ∧ r.allocSize ≤ embedValueMaxAllocSize := by
  have five := sdsReqType_recorded fieldLen
  unfold entryReqSize at req
  dsimp only at req
  split_ifs at req with promoted fits five' <;> subst req <;>
    simp_all [sdsReqSize, coe_le_sdsTypeMaxSize, sdsReqType_eq_type5] <;> omega

theorem length_region (block : List UInt8) (front size : Nat) (room : front + size ≤ block.length) :
    ((block.drop front).take size).length = size := by
  simp only [List.length_take, List.length_drop]
  omega

theorem entryConstruct_sdsPointer (a : Allocator) (field : List UInt8) (value : SdsString) (expiry : Int)
    {t : SdsType} (notFive : t ≠ .type5) (recorded : (field.length : ℕ∞) ≤ sdsTypeMaxSize t)
    {allocSize expirySize : Nat} (expirySized : expirySize = if expiry = expiryNone then 0 else 8)
    (room : expirySize + 8 + sdsReqSize field.length t ≤ allocSize) (evs : Nat) :
    ∃ e, entryConstruct a allocSize field (some value) none expiry false t expirySize evs
        (sdsReqSize field.length t) = some e ∧
      e.Holds field (.bytes (sdsContent value)) expiry ∧ entryHasValuePtr e = true ∧ entryHasStringRef e = false := by
  have enough := a.enough allocSize
  have regionLength := length_region (a.malloc allocSize) (expirySize + 8)
    (sdsReqSize field.length t) (by omega)
  have usable : sdsReqSize field.length t - sdsHdrSize t - 1 = field.length := by
    rw [sdsReqSize]
    omega
  obtain ⟨s, written, valid, content, typed⟩ := sdswrite_spec _ t field
    (by rw [regionLength, sdsReqSize]) (fun five => absurd five notFive)
    (fun _ => by rw [regionLength, usable]; exact recorded)
  have notFive' : s.type ≠ .type5 := typed ▸ notFive
  refine ⟨⟨(a.malloc allocSize).length, if expirySize ≠ 0 then some expiry else none, some (some (.sds value)),
      sdsSetAuxBit (sdsSetAuxBit ⟨s, 0⟩ 1 true) 0 (decide (0 < expirySize)), none⟩, ?_, ⟨?_, ?_, ?_, ?_, ?_⟩, ?_, ?_⟩
  · unfold entryConstruct
    simp [written, FieldSdsAuxBit.index]
    omega
  · simpa [entryGetField] using valid
  · simpa [entryGetField] using content
  · simp [entryGetValue, entryHasEmbeddedValue, entryHasValuePtr, entryHasStringRef, entryGetValueRef,
      sdsGetAuxBit_sdsSetAuxBit, FieldSdsAuxBit.index, notFive', EntryValue.contents]
  · by_cases none : expiry = expiryNone
    · simp [entryGetExpiry, entryHasExpiry, sdsGetAuxBit_sdsSetAuxBit, FieldSdsAuxBit.index, none, expirySized]
    · simp [entryGetExpiry, entryGetExpiryRef, entryHasExpiry, sdsGetAuxBit_sdsSetAuxBit, FieldSdsAuxBit.index,
        notFive', none, expirySized]
  · by_cases none : expiry = expiryNone <;>
      simp [entryHasExpiry, sdsGetAuxBit_sdsSetAuxBit, FieldSdsAuxBit.index, notFive', none, expirySized]
  · simp [entryHasValuePtr, sdsGetAuxBit_sdsSetAuxBit, FieldSdsAuxBit.index, notFive']
  · simp [entryHasStringRef, entryHasValuePtr, sdsGetAuxBit_sdsSetAuxBit, FieldSdsAuxBit.index]

theorem entryConstruct_embedded (a : Allocator) (field : List UInt8) (value : SdsString) (expiry : Int)
    {t : SdsType} (short : t = .type5 → field.length < 32 ∧ expiry = expiryNone)
    (recorded : (field.length : ℕ∞) ≤ sdsTypeMaxSize t) {allocSize expirySize : Nat}
    (expirySized : expirySize = if expiry = expiryNone then 0 else 8)
    (sized : allocSize = expirySize + sdsReqSize field.length t + sdsReqSize (sdslen value) .type8)
    (tight : (a.malloc allocSize).length < 260) (evs : Nat) :
    ∃ e, entryConstruct a allocSize field (some value) none expiry true t expirySize evs
        (sdsReqSize field.length t) = some e ∧
      e.Holds field (.bytes (sdsContent value)) expiry ∧ entryHasValuePtr e = false := by
  have enough := a.enough allocSize
  have regionLength := length_region (a.malloc allocSize) (expirySize + 0)
    (sdsReqSize field.length t) (by omega)
  have usable : sdsReqSize field.length t - sdsHdrSize t - 1 = field.length := by
    rw [sdsReqSize]
    omega
  obtain ⟨s, written, valid, content, typed⟩ := sdswrite_spec _ t field
    (by rw [regionLength, sdsReqSize]) (fun five => (short five).1)
    (fun _ => by rw [regionLength, usable]; exact recorded)
  have contentShort : (sdsContent value).length ≤ sdslen value := by
    simp [sdsContent, sdslen]
  have tail : ((a.malloc allocSize).drop (expirySize + 0 + sdsReqSize field.length t)).length =
      (a.malloc allocSize).length - (expirySize + sdsReqSize field.length t) := by
    simp
  obtain ⟨v, valueWritten, -, valueContent, valueTyped⟩ := sdswrite_spec _ .type8 (sdsContent value)
    (by rw [tail]; simp only [sdsReqSize] at sized ⊢; omega) (fun five => by cases five)
    (fun _ => by
      rw [tail]
      refine (coe_le_sdsTypeMaxSize .type8 _).mpr
        ⟨fun five => (by cases five), fun _ => ?_, fun sixteen => (by cases sixteen), fun wide => (by cases wide)⟩
      simp only [sdsHdrSize]
      omega)
  have bufLength : s.buf.length = field.length + 1 := by
    rw [length_buf_of_sdswrite written, regionLength, sdsReqSize]
    omega
  have fieldLen : sdslen s = field.length := by
    rw [← valid.length_content, content]
  refine ⟨⟨(a.malloc allocSize).length, if expirySize ≠ 0 then some expiry else none, none,
      sdsSetAuxBit (sdsSetAuxBit ⟨s, 0⟩ 1 false) 0 (decide (0 < expirySize)), some v⟩, ?_, ⟨?_, ?_, ?_, ?_, ?_⟩, ?_⟩
  · unfold entryConstruct
    simp only [Nat.add_zero] at valueWritten written
    simp [written, valueWritten, FieldSdsAuxBit.index]
    omega
  · simpa [entryGetField] using valid
  · simpa [entryGetField] using content
  · simp [entryGetValue, entryHasEmbeddedValue, entryHasValuePtr, entryGetField, sdsGetAuxBit_sdsSetAuxBit,
      FieldSdsAuxBit.index, bufLength, fieldLen, valueTyped, EntryValue.contents, valueContent]
  · by_cases five : t = .type5
    · have none := (short five).2
      simp [entryGetExpiry, entryHasExpiry, sdsGetAuxBit_sdsSetAuxBit, FieldSdsAuxBit.index, none, typed, five]
    · have notFive' : s.type ≠ .type5 := typed ▸ five
      by_cases none : expiry = expiryNone
      · simp [entryGetExpiry, entryHasExpiry, sdsGetAuxBit_sdsSetAuxBit, FieldSdsAuxBit.index, none, expirySized]
      · simp [entryGetExpiry, entryGetExpiryRef, entryHasExpiry, sdsGetAuxBit_sdsSetAuxBit,
          FieldSdsAuxBit.index, notFive', none, expirySized]
  · by_cases five : t = .type5
    · have none := (short five).2
      simp [entryHasExpiry, sdsGetAuxBit_sdsSetAuxBit, FieldSdsAuxBit.index, none, typed, five]
    · have notFive' : s.type ≠ .type5 := typed ▸ five
      by_cases none : expiry = expiryNone <;>
        simp [entryHasExpiry, sdsGetAuxBit_sdsSetAuxBit, FieldSdsAuxBit.index, notFive', none, expirySized]
  · simp [entryHasValuePtr, sdsGetAuxBit_sdsSetAuxBit, FieldSdsAuxBit.index]

theorem entryConstruct_unrecorded (a : Allocator) {allocSize : Nat} (field : List UInt8)
    (sdsValue : Option SdsString) (stringrefValue : Option StringRef) (expiry : Int) (embedValue : Bool)
    {t : SdsType} (notFive : t ≠ .type5) (unrecorded : ¬(field.length : ℕ∞) ≤ sdsTypeMaxSize t)
    {expirySize : Nat} (evs : Nat) (room : expirySize + (if embedValue then 0 else 8) + sdsReqSize field.length t ≤ allocSize) :
    entryConstruct a allocSize field sdsValue stringrefValue expiry embedValue t expirySize evs
      (sdsReqSize field.length t) = none := by
  have enough := a.enough allocSize
  have refused := sdswrite_eq_none_of_unrecorded notFive
    (length_region (a.malloc allocSize) (expirySize + (if embedValue then 0 else 8))
      (sdsReqSize field.length t) (by omega)) unrecorded
  unfold entryConstruct
  simp only [refused]
  split
  · rfl
  · rw [if_neg (by omega)]
    -- whatever the value's write gives, the field's fails
    split <;> simp

/-- entryCreate round trip: the field, the value's bytes and the expiry read back, whatever the
lengths and the expiry, on an allocator whose blocks of at most EMBED_VALUE_MAX_ALLOC_SIZE bytes have
fewer than 260 usable bytes (so an embedded value's sdshdr8 records the rest of the block). -/
theorem entryCreate_holds (a : Allocator) (tight : ∀ n ≤ embedValueMaxAllocSize, (a.malloc n).length < 260)
    (field : List UInt8) (value : SdsString) (expiry : Int) :
    ∃ e, entryCreate a field (some value) expiry = some e ∧ e.Holds field (.bytes (sdsContent value)) expiry := by
  unfold entryCreate
  rw [Option.map_some]
  generalize req : entryReqSize field.length (some (sdslen value)) expiry = r
  cases embedded : r.embedValue
  · obtain ⟨notFive, recorded, fieldSized, expirySized, allocSized⟩ := entryReqSize_pointer req embedded
    dsimp only
    rw [embedded, fieldSized]
    obtain ⟨e, built, holds, -⟩ :=
      entryConstruct_sdsPointer a field value expiry notFive recorded expirySized
        (show r.expirySize + 8 + sdsReqSize field.length r.fieldSdsType ≤ r.allocSize by omega) r.embeddedValueSize
    exact ⟨e, built, holds⟩
  · obtain ⟨short, recorded, fieldSized, expirySized, allocSized, small⟩ := entryReqSize_embedded req embedded
    dsimp only
    rw [embedded, fieldSized]
    obtain ⟨e, built, holds, -⟩ := entryConstruct_embedded a field value expiry short recorded expirySized
      (by rw [allocSized, fieldSized]) (tight _ small) r.embeddedValueSize
    exact ⟨e, built, holds⟩

theorem entryCreate_holds_exact :
    (∀ n ≤ embedValueMaxAllocSize, (Allocator.exact.malloc n).length < 260) ∧
      ∃ e, entryCreate Allocator.exact [102] (some ⟨.type8, 1, 1, [120, 0]⟩) 1000 = some e ∧
        e.Holds [102] (.bytes (sdsContent ⟨.type8, 1, 1, [120, 0]⟩)) 1000 :=
  have tight : ∀ n ≤ embedValueMaxAllocSize, (Allocator.exact.malloc n).length < 260 := fun n small => by
    simp only [Allocator.exact, List.length_replicate]
    unfold embedValueMaxAllocSize at small
    omega
  ⟨tight, entryCreate_holds _ tight _ _ _⟩

/-- entryUpdateAsStringRef on an entry whose field is 256 bytes or longer, when it adds an expiry,
rebuilds the entry with an SDS_TYPE_8 field, whose header cannot record that length: sdswrite's
assertion fails. Such an entry is built by entryCreate whatever the allocator. -/
theorem entryUpdateAsStringRef_longField (a : Allocator) (field : List UInt8) (value : SdsString)
    (buf len : Nat) (expiry : Int) (long : 256 ≤ field.length) (timed : expiry ≠ expiryNone) :
    ∃ e, entryCreate a field (some value) expiryNone = some e ∧
      e.Holds field (.bytes (sdsContent value)) expiryNone ∧ entryUpdateAsStringRef a e buf len expiry = none := by
  unfold entryCreate
  rw [Option.map_some]
  generalize req : entryReqSize field.length (some (sdslen value)) expiryNone = r
  -- the field alone is past EMBED_VALUE_MAX_ALLOC_SIZE, so the value is not embedded
  have notEmbedded : r.embedValue = false := by
    cases embedded : r.embedValue
    · rfl
    · obtain ⟨-, -, fieldSized, -, allocSized, small⟩ := entryReqSize_embedded req embedded
      simp only [fieldSized, sdsReqSize, embedValueMaxAllocSize] at allocSized small
      omega
  obtain ⟨notFive, recorded, fieldSized, expirySized, allocSized⟩ := entryReqSize_pointer req notEmbedded
  dsimp only
  rw [notEmbedded, fieldSized]
  obtain ⟨e, built, holds, -⟩ :=
    entryConstruct_sdsPointer a field value expiryNone notFive recorded expirySized
      (show r.expirySize + 8 + sdsReqSize field.length r.fieldSdsType ≤ r.allocSize by omega) r.embeddedValueSize
  refine ⟨e, built, holds, ?_⟩
  have fieldLen : sdslen (entryGetField e) = field.length := by
    rw [← holds.field_valid.length_content, holds.field_eq]
  unfold entryUpdateAsStringRef
  simp only [holds.expiry_eq, Option.bind_eq_bind, Option.bind_some]
  -- the expiry is added, so a new entry is built, with an SDS_TYPE_8 field
  rw [if_neg (by simp [timed])]
  simp only [fieldLen, holds.field_eq]
  rw [entryConstruct_unrecorded a field none _ expiry false (by decide)
    (by rw [coe_le_sdsTypeMaxSize]; simp; omega) 8 (by simp [timed]; omega)]
  rfl

theorem entryUpdateAsStringRef_longField_at256 :
    256 ≤ (List.replicate 256 (97 : UInt8)).length ∧ (1000 : Int) ≠ expiryNone ∧
      ∃ e, entryCreate Allocator.exact (List.replicate 256 97) (some ⟨.type8, 1, 1, [120, 0]⟩) expiryNone = some e ∧
        e.Holds (List.replicate 256 97) (.bytes (sdsContent ⟨.type8, 1, 1, [120, 0]⟩)) expiryNone ∧
        entryUpdateAsStringRef Allocator.exact e 4096 1 1000 = none :=
  ⟨by rw [List.length_replicate], by decide,
    entryUpdateAsStringRef_longField Allocator.exact _ _ 4096 1 1000 (by rw [List.length_replicate]) (by decide)⟩

end Layouts

end Kv.Hash
