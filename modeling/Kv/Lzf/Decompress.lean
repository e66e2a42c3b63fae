import Kv.Foundations.Lz77

/-!
LZF (lzf_c.c, lzf_d.c). Compressed data is a sequence of tokens. A literal run
is a control byte holding its length less one (1 to 32 bytes), then the bytes.
A back reference holds the length less two in the control byte's top three bits,
7 there meaning that a byte with the rest follows, and the distance less one
in the control byte's low five bits and the byte after. `LzfToken` is that
format. lzf_decompress is modelled on bytes, one control byte a turn, with
`none` for an access outside its two buffers.
-/

namespace Kv.Lzf

open Foundations

inductive LzfToken where
  | literal (bytes : List UInt8)
  | reference (off len : Nat)
  deriving DecidableEq, Repr

namespace LzfToken

def encode : LzfToken → List UInt8
  | literal bytes => UInt8.ofNat (bytes.length - 1) :: bytes
  | reference off len =>
    if len < 7 then [UInt8.ofNat (off / 256 + len * 32), UInt8.ofNat off]
    else [UInt8.ofNat (off / 256 + 7 * 32), UInt8.ofNat (len - 7), UInt8.ofNat off]

def expand (history : List UInt8) : LzfToken → List UInt8
  | literal bytes => history ++ bytes
  | reference off len => copyBack history (off + 1) (len + 2)

def Valid (produced : Nat) : LzfToken → Prop
  | literal bytes => 1 ≤ bytes.length ∧ bytes.length ≤ 32
  | reference off len => off < 8192 ∧ 1 ≤ len ∧ len ≤ 262 ∧ off + 1 ≤ produced

def size : LzfToken → Nat
  | literal bytes => bytes.length
  | reference _ len => len + 2

theorem expand_eq (history : List UInt8) (token : LzfToken) :
    ∃ added, token.expand history = history ++ added ∧ added.length = token.size := by
  cases token with
  | literal bytes => exact ⟨bytes, rfl, rfl⟩
  | reference off len =>
    -- a reference only appends to the history
    obtain ⟨added, grown⟩ := prefix_copyBack history (off + 1) (len + 2)
    have length := congrArg List.length grown
    rw [List.length_append, length_copyBack] at length
    exact ⟨added, grown.symm, by simp only [size]; omega⟩

theorem length_expand (history : List UInt8) (token : LzfToken) :
    (token.expand history).length = history.length + token.size := by
  obtain ⟨added, expanded, addedLength⟩ := token.expand_eq history
  rw [expanded, List.length_append, addedLength]

@[simp] theorem length_encode_literal (bytes : List UInt8) : (literal bytes).encode.length = bytes.length + 1 := by
  simp [encode]

theorem length_encode_pos (token : LzfToken) : 1 ≤ token.encode.length := by
  cases token with
  | literal bytes => simp [encode]
  | reference off len =>
    rw [encode]
    split <;> simp

end LzfToken

def expandTokens (history : List UInt8) (tokens : List LzfToken) : List UInt8 :=
  tokens.foldl LzfToken.expand history

theorem prefix_expandTokens (history : List UInt8) (tokens : List LzfToken) :
    history <+: expandTokens history tokens := by
  induction tokens generalizing history with
  | nil => exact List.prefix_refl history
  | cons token tokens ih =>
    obtain ⟨added, expanded, -⟩ := token.expand_eq history
    have rest := ih (token.expand history)
    rw [expanded] at rest
    show history <+: expandTokens (token.expand history) tokens
    rw [expanded]
    exact (List.prefix_append history added).trans rest

def ValidTokens : List UInt8 → List LzfToken → Prop
  | _, [] => True
  | history, token :: tokens => token.Valid history.length ∧ ValidTokens (token.expand history) tokens

theorem expandTokens_concat (history : List UInt8) (tokens : List LzfToken) (token : LzfToken) :
    expandTokens history (tokens ++ [token]) = token.expand (expandTokens history tokens) := by
  rw [expandTokens, List.foldl_append, List.foldl_cons, List.foldl_nil]
  rfl

theorem ValidTokens.concat {history : List UInt8} {tokens : List LzfToken} {token : LzfToken}
    (valid : ValidTokens history tokens) (last : token.Valid (expandTokens history tokens).length) :
    ValidTokens history (tokens ++ [token]) := by
  induction tokens generalizing history with
  | nil => exact ⟨last, trivial⟩
  | cons first tokens ih => exact ⟨valid.1, ih valid.2 last⟩

section Decompress

inductive DecompressTurn where
  | stop (result : Nat) (out : List UInt8)
  | next (ip op : Nat) (out : List UInt8)

def lzfCopyReference (out : List UInt8) (ref op len : Nat) : Option (List UInt8) :=
  if 10 ≤ len ∧ ref + (len + 2) ≤ op then moveBytes out op ref (len + 2) else copyForward out ref op (len + 2)

def lzfDecompressReference (input : List UInt8) (outLen ip op len : Nat) (ref : Int) (out : List UInt8) :
    Option DecompressTurn := do
  let low ← input[ip]?
  let ref := ref - low.toNat
  if op + len + 2 > outLen then some (.stop 0 out)
  else if ref < 0 then some (.stop 0 out)
  else do
    let out ← lzfCopyReference out ref.toNat op len
    some (.next (ip + 1) (op + len + 2) out)

def lzfDecompressTurn (input : List UInt8) (outLen ip op : Nat) (out : List UInt8) : Option DecompressTurn := do
  let ctrl := (← input[ip]?).toNat
  if ctrl < 32 then
    -- a literal run
    let ctrl := ctrl + 1
    if op + ctrl > outLen then some (.stop 0 out)
    else if ip + 1 + ctrl > input.length then some (.stop 0 out)
    else do
      let bytes ← readBytes input (ip + 1) ctrl
      let out ← writeBytes out op bytes
      some (.next (ip + 1 + ctrl) (op + ctrl) out)
  else
    -- a back reference
    let len := ctrl / 32
    let ref : Int := (op : Int) - ((ctrl % 32 * 256 : Nat) : Int) - 1
    if ip + 1 ≥ input.length then some (.stop 0 out)
    else if len = 7 then do
      let extra ← input[ip + 1]?
      if ip + 2 ≥ input.length then some (.stop 0 out)
      else lzfDecompressReference input outLen (ip + 2) op (len + extra.toNat) ref out
    else lzfDecompressReference input outLen (ip + 1) op len ref out

def lzfDecompressLoop (input : List UInt8) (outLen : Nat) : Nat → Nat → Nat → List UInt8 → Option (Nat × List UInt8)
  | 0, _, _, _ => none
  | fuel + 1, ip, op, out =>
    if ip < input.length then
      match lzfDecompressTurn input outLen ip op out with
      | none => none
      | some (.stop result out) => some (result, out)
      | some (.next ip op out) => lzfDecompressLoop input outLen fuel ip op out
    else some (op, out)

/-- lzf_decompress of `input` into the buffer `out`: the return value and the buffer after. -/
def lzfDecompress (input out : List UInt8) : Option (Nat × List UInt8) :=
  lzfDecompressLoop input out.length (input.length + 1) 0 0 out

end Decompress

section Tokens

open LzfToken

variable (pre rest history garbage : List UInt8)

theorem lzfCopyReference_history (off len : Nat) (inside : off + 1 ≤ history.length)
    (fits : len + 2 ≤ garbage.length) :
    lzfCopyReference (history ++ garbage) (history.length - (off + 1)) history.length len =
      some (copyBack history (off + 1) (len + 2) ++ garbage.drop (len + 2)) := by
  unfold lzfCopyReference
  split
  · next disjoint => exact moveBytes_history history garbage (by omega) inside fits
  · exact copyForward_history history garbage (by omega) inside fits

theorem lzfDecompressTurn_literal {bytes : List UInt8} (valid : (literal bytes).Valid history.length)
    (fits : bytes.length ≤ garbage.length) :
    lzfDecompressTurn (pre ++ (literal bytes).encode ++ rest) (history.length + garbage.length) pre.length
        history.length (history ++ garbage) =
      some (.next (pre.length + (literal bytes).encode.length) (history.length + bytes.length)
        (history ++ bytes ++ garbage.drop bytes.length)) := by
  obtain ⟨nonempty, short⟩ := valid
  have ctrl : (UInt8.ofNat (bytes.length - 1)).toNat = bytes.length - 1 := by
    simp only [UInt8.toNat_ofNat']
    omega
  have read : readBytes (pre ++ (literal bytes).encode ++ rest) (pre.length + 1) bytes.length = some bytes := by
    rw [encode, List.append_assoc, List.cons_append, ← List.singleton_append, ← List.append_assoc,
      readBytes_append (by simp) (by simp), List.take_left' rfl]
  have length : (pre ++ (literal bytes).encode ++ rest).length = pre.length + 1 + bytes.length + rest.length := by
    simp [encode]
    omega
  rw [lzfDecompressTurn, List.getElem?_append_left (by simp [encode]), List.getElem?_append_right le_rfl,
    Nat.sub_self, encode, List.getElem?_cons_zero]
  simp only [Option.bind_eq_bind, Option.bind_some, ctrl, if_pos (show bytes.length - 1 < 32 by omega),
    Nat.sub_add_cancel nonempty, if_neg (show ¬(history.length + bytes.length > history.length + garbage.length) by omega)]
  rw [← encode, if_neg (by rw [length]; omega), read, Option.bind_some,
    writeBytes_append rfl fits, Option.bind_some]
  simp [encode]
  omega

theorem getElem?_middle {middle : List UInt8} {i : Nat} (inside : i < middle.length) :
    (pre ++ middle ++ rest)[pre.length + i]? = middle[i]? := by
  rw [List.getElem?_append_left (by simp; omega), List.getElem?_append_right (by omega), Nat.add_sub_cancel_left]

theorem lzfDecompressTurn_reference {off len : Nat} (valid : (reference off len).Valid history.length)
    (fits : len + 2 ≤ garbage.length) :
    lzfDecompressTurn (pre ++ (reference off len).encode ++ rest) (history.length + garbage.length) pre.length
        history.length (history ++ garbage) =
      some (.next (pre.length + (reference off len).encode.length) (history.length + (len + 2))
        (copyBack history (off + 1) (len + 2) ++ garbage.drop (len + 2))) := by
  obtain ⟨near, long, short, inside⟩ := valid
  set input := pre ++ (reference off len).encode ++ rest with inputEq
  -- the distance: the control byte's low five bits, then the low byte
  have distance : ((history.length : Int) - ((off / 256 * 256 : Nat) : Int) - 1) - ((UInt8.ofNat off).toNat : Int) =
      ((history.length - (off + 1) : Nat) : Int) := by
    simp only [UInt8.toNat_ofNat']
    omega
  have finish (ip : Nat) (lowAt : input[ip]? = some (UInt8.ofNat off)) :
      lzfDecompressReference input (history.length + garbage.length) ip history.length len
        ((history.length : Int) - ((off / 256 * 256 : Nat) : Int) - 1) (history ++ garbage) =
        some (.next (ip + 1) (history.length + len + 2)
          (copyBack history (off + 1) (len + 2) ++ garbage.drop (len + 2))) := by
    rw [lzfDecompressReference, lowAt]
    simp only [Option.bind_eq_bind, Option.bind_some, distance, Int.toNat_natCast,
      lzfCopyReference_history history garbage off len inside fits,
      if_neg (show ¬(history.length + len + 2 > history.length + garbage.length) by omega),
      if_neg (show ¬(((history.length - (off + 1) : Nat) : Int) < 0) by omega)]
  have encodeLength : input.length = pre.length + (reference off len).encode.length + rest.length := by
    simp [inputEq]
    omega
  by_cases small : len < 7
  · -- the length in the control byte
    have bytes : (reference off len).encode = [UInt8.ofNat (off / 256 + len * 32), UInt8.ofNat off] := by
      rw [encode, if_pos small]
    have ctrl : (UInt8.ofNat (off / 256 + len * 32)).toNat = off / 256 + len * 32 := by
      simp only [UInt8.toNat_ofNat']
      omega
    have ctrlAt : input[pre.length]? = some (UInt8.ofNat (off / 256 + len * 32)) := by
      rw [← Nat.add_zero pre.length, inputEq, getElem?_middle pre rest (by simp [bytes]), bytes]
      rfl
    have lowAt : input[pre.length + 1]? = some (UInt8.ofNat off) := by
      rw [inputEq, getElem?_middle pre rest (by simp [bytes]), bytes]
      rfl
    have lengthEq : (reference off len).encode.length = 2 := by simp [bytes]
    rw [lzfDecompressTurn, ctrlAt]
    simp only [Option.bind_eq_bind, Option.bind_some, ctrl, if_neg (show ¬(off / 256 + len * 32 < 32) by omega),
      show (off / 256 + len * 32) / 32 = len by omega, show (off / 256 + len * 32) % 32 = off / 256 by omega,
      if_neg (show ¬(pre.length + 1 ≥ input.length) by omega), if_neg (show ¬(len = 7) by omega), finish _ lowAt,
      lengthEq, Nat.add_assoc]
  · -- the length's extra byte
    have bytes : (reference off len).encode =
        [UInt8.ofNat (off / 256 + 7 * 32), UInt8.ofNat (len - 7), UInt8.ofNat off] := by
      rw [encode, if_neg small]
    have ctrl : (UInt8.ofNat (off / 256 + 7 * 32)).toNat = off / 256 + 7 * 32 := by
      simp only [UInt8.toNat_ofNat']
      omega
    have extra : (UInt8.ofNat (len - 7)).toNat = len - 7 := by
      simp only [UInt8.toNat_ofNat']
      omega
    have ctrlAt : input[pre.length]? = some (UInt8.ofNat (off / 256 + 7 * 32)) := by
      rw [← Nat.add_zero pre.length, inputEq, getElem?_middle pre rest (by simp [bytes]), bytes]
      rfl
    have extraAt : input[pre.length + 1]? = some (UInt8.ofNat (len - 7)) := by
      rw [inputEq, getElem?_middle pre rest (by simp [bytes]), bytes]
      rfl
    have lowAt : input[pre.length + 2]? = some (UInt8.ofNat off) := by
      rw [inputEq, getElem?_middle pre rest (by simp [bytes]), bytes]
      rfl
    have lengthEq : (reference off len).encode.length = 3 := by simp [bytes]
    rw [lzfDecompressTurn, ctrlAt]
    simp only [Option.bind_eq_bind, Option.bind_some, ctrl, if_neg (show ¬(off / 256 + 7 * 32 < 32) by omega),
      show (off / 256 + 7 * 32) / 32 = 7 by omega, show (off / 256 + 7 * 32) % 32 = off / 256 by omega,
      if_neg (show ¬(pre.length + 1 ≥ input.length) by omega), if_true, extraAt, extra,
      if_neg (show ¬(pre.length + 2 ≥ input.length) by omega), show 7 + (len - 7) = len by omega,
      finish _ lowAt, lengthEq, Nat.add_assoc]

theorem lzfDecompressTurn_token {token : LzfToken} (valid : token.Valid history.length)
    (fits : token.size ≤ garbage.length) :
    lzfDecompressTurn (pre ++ token.encode ++ rest) (history.length + garbage.length) pre.length
        history.length (history ++ garbage) =
      some (.next (pre.length + token.encode.length) (history.length + token.size)
        (token.expand history ++ garbage.drop token.size)) := by
  cases token with
  | literal bytes =>
    rw [lzfDecompressTurn_literal pre rest history garbage valid fits]
    rfl
  | reference off len => exact lzfDecompressTurn_reference pre rest history garbage valid fits

end Tokens

theorem length_le_flatMap_encode (tokens : List LzfToken) : tokens.length ≤ (tokens.flatMap LzfToken.encode).length := by
  induction tokens with
  | nil => simp
  | cons token tokens ih =>
    have := token.length_encode_pos
    simp only [List.length_cons, List.flatMap_cons, List.length_append]
    omega

theorem lzfDecompressLoop_tokens :
    ∀ (tokens : List LzfToken) (pre history garbage : List UInt8) (fuel : Nat),
      ValidTokens history tokens → (expandTokens history tokens).length ≤ history.length + garbage.length →
      tokens.length < fuel →
      lzfDecompressLoop (pre ++ tokens.flatMap LzfToken.encode) (history.length + garbage.length) fuel pre.length
          history.length (history ++ garbage) =
        some ((expandTokens history tokens).length,
          expandTokens history tokens ++ garbage.drop ((expandTokens history tokens).length - history.length))
  | [], pre, history, garbage, fuel + 1, _, _, _ => by
    simp [lzfDecompressLoop, expandTokens]
  | token :: tokens, pre, history, garbage, fuel + 1, valid, fits, enough => by
    obtain ⟨validToken, validRest⟩ := valid
    have expanded := LzfToken.length_expand history token
    have grown := (prefix_expandTokens (token.expand history) tokens).length_le
    have expandCons : expandTokens history (token :: tokens) = expandTokens (token.expand history) tokens := rfl
    rw [expandCons] at fits ⊢
    have room : token.size ≤ garbage.length := by omega
    have outLen : (token.expand history).length + (garbage.drop token.size).length =
        history.length + garbage.length := by
      rw [expanded, List.length_drop]
      omega
    -- the rest of the loop, from the output after this token
    have next := lzfDecompressLoop_tokens tokens (pre ++ token.encode) (token.expand history)
      (garbage.drop token.size) fuel validRest (by rw [outLen]; exact fits) (by simp at enough; omega)
    rw [outLen, List.length_append, List.drop_drop, expanded,
      show token.size + ((expandTokens (token.expand history) tokens).length - (history.length + token.size)) =
        (expandTokens (token.expand history) tokens).length - history.length by omega] at next
    have turn := lzfDecompressTurn_token pre (tokens.flatMap LzfToken.encode) history garbage validToken room
    rw [List.flatMap_cons, ← List.append_assoc] at ⊢
    rw [lzfDecompressLoop, if_pos (by simp; have := token.length_encode_pos; omega), turn]
    simp only
    exact next

theorem lzfDecompress_tokens (tokens : List LzfToken) (valid : ValidTokens [] tokens) (out : List UInt8)
    (size : out.length = (expandTokens [] tokens).length) :
    lzfDecompress (tokens.flatMap LzfToken.encode) out = some (out.length, expandTokens [] tokens) := by
  have enough : tokens.length < (tokens.flatMap LzfToken.encode).length + 1 :=
    Nat.lt_succ_of_le (length_le_flatMap_encode tokens)
  have run := lzfDecompressLoop_tokens tokens [] [] out _ valid (by simp [size]) enough
  simp only [List.nil_append, List.length_nil, Nat.zero_add, Nat.sub_zero] at run
  rw [lzfDecompress, run, ← size, List.drop_length, List.append_nil]

section Safety

/-! On any input, lzf_decompress reads only its input and writes only its buffer, from the start on. -/

def TurnSafe (outLen ip : Nat) (history : List UInt8) (turn : List UInt8 → Option DecompressTurn) : Prop :=
  (∀ rest, (history ++ rest).length = outLen → turn (history ++ rest) = some (.stop 0 (history ++ rest))) ∨
    ∃ ip' added, ip < ip' ∧ history.length + added.length ≤ outLen ∧
      ∀ rest, (history ++ rest).length = outLen →
        turn (history ++ rest) =
          some (.next ip' (history.length + added.length) (history ++ added ++ rest.drop added.length))

theorem TurnSafe.stops {outLen ip : Nat} {history : List UInt8} {turn : List UInt8 → Option DecompressTurn}
    (stops : ∀ out, turn out = some (.stop 0 out)) : TurnSafe outLen ip history turn :=
  .inl fun rest _ => stops (history ++ rest)

variable (input history : List UInt8) (outLen : Nat)

theorem lzfDecompressReference_safe (ip position len : Nat) {ref : Int} (after : position < ip)
    (reading : ip < input.length) (below : ref < history.length) :
    TurnSafe outLen position history
      (lzfDecompressReference input outLen ip history.length len ref) := by
  obtain ⟨low, lowAt⟩ : ∃ low, input[ip]? = some low := ⟨input[ip], List.getElem?_eq_getElem reading⟩
  unfold lzfDecompressReference
  rw [lowAt]
  simp only [Option.bind_eq_bind, Option.bind_some]
  by_cases overrun : history.length + len + 2 > outLen
  · exact .stops fun out => by rw [if_pos overrun]
  by_cases before : ref - low.toNat < 0
  · exact .stops fun out => by rw [if_neg overrun, if_pos before]
  -- the reference starts within the output: its copy appends to it
  set distance := history.length - (ref - low.toNat).toNat with distanceEq
  have start : (ref - low.toNat).toNat = history.length - distance := by omega
  obtain ⟨added, grown⟩ := prefix_copyBack history distance (len + 2)
  have addedLength : added.length = len + 2 := by
    have := congrArg List.length grown
    simp only [List.length_append, length_copyBack] at this
    omega
  refine .inr ⟨ip + 1, added, by omega, by omega, fun rest size => ?_⟩
  have copied := lzfCopyReference_history history rest (distance - 1) len (by omega)
    (by simp at size; omega)
  rw [Nat.sub_add_cancel (by omega), ← start, ← grown] at copied
  dsimp only
  rw [if_neg overrun, if_neg before, copied, Option.bind_some, addedLength, Nat.add_assoc]

theorem lzfDecompressTurn_safe {ip : Nat} (reading : ip < input.length) :
    TurnSafe outLen ip history (lzfDecompressTurn input outLen ip history.length) := by
  unfold lzfDecompressTurn
  rw [List.getElem?_eq_getElem reading]
  simp only [Option.bind_eq_bind, Option.bind_some]
  split
  · -- a literal run
    next literal =>
    by_cases overrun : history.length + (input[ip].toNat + 1) > outLen
    · exact .stops fun out => by rw [if_pos overrun]
    by_cases past : ip + 1 + (input[ip].toNat + 1) > input.length
    · exact .stops fun out => by rw [if_neg overrun, if_pos past]
    set bytes := (input.drop (ip + 1)).take (input[ip].toNat + 1) with bytesEq
    have bytesLength : bytes.length = input[ip].toNat + 1 := by
      rw [bytesEq, List.length_take, List.length_drop]
      omega
    refine .inr ⟨ip + 1 + (input[ip].toNat + 1), bytes, by omega, by omega, fun rest size => ?_⟩
    have read : readBytes input (ip + 1) (input[ip].toNat + 1) = some bytes := by
      rw [readBytes, if_pos (by omega)]
    have written : writeBytes (history ++ rest) history.length bytes =
        some (history ++ bytes ++ rest.drop bytes.length) :=
      writeBytes_append rfl (by simp at size; omega)
    dsimp only
    rw [if_neg overrun, if_neg past, read, Option.bind_some, written, Option.bind_some, bytesLength]
  · -- a back reference, starting at least one byte before the output's end
    next reference =>
    have below : ((history.length : Int) - ((input[ip].toNat % 32 * 256 : Nat) : Int) - 1) < history.length := by
      omega
    by_cases short : ip + 1 ≥ input.length
    · exact .stops fun out => by rw [if_pos short]
    by_cases long : input[ip].toNat / 32 = 7
    · by_cases cut : ip + 2 ≥ input.length
      · exact .stops fun out => by
          rw [if_neg short, if_pos long, List.getElem?_eq_getElem (by omega)]
          simp only [Option.bind_some, if_pos cut]
      have tail := lzfDecompressReference_safe input history outLen (ip + 2) ip
        (input[ip].toNat / 32 + input[ip + 1].toNat) (by omega) (by omega) below
      rcases tail with stops | ⟨ip', added, after, fits, next⟩
      · exact .inl fun rest size => by
          dsimp only
          rw [if_neg short, if_pos long, List.getElem?_eq_getElem (by omega)]
          simp only [Option.bind_some, if_neg cut]
          exact stops rest size
      · exact .inr ⟨ip', added, after, fits, fun rest size => by
          dsimp only
          rw [if_neg short, if_pos long, List.getElem?_eq_getElem (by omega)]
          simp only [Option.bind_some, if_neg cut]
          exact next rest size⟩
    · have tail := lzfDecompressReference_safe input history outLen (ip + 1) ip
        (input[ip].toNat / 32) (by omega) (by omega) below
      rcases tail with stops | ⟨ip', added, after, fits, next⟩
      · exact .inl fun rest size => by
          dsimp only
          rw [if_neg short, if_neg long]
          exact stops rest size
      · exact .inr ⟨ip', added, after, fits, fun rest size => by
          dsimp only
          rw [if_neg short, if_neg long]
          exact next rest size⟩

theorem lzfDecompressLoop_safe :
    ∀ (fuel ip : Nat) (history : List UInt8), input.length - ip < fuel → history.length ≤ outLen →
      ∃ result added, history.length + added.length ≤ outLen ∧ (result = 0 ∨ result = history.length + added.length) ∧
        ∀ rest, (history ++ rest).length = outLen →
          lzfDecompressLoop input outLen fuel ip history.length (history ++ rest) =
            some (result, history ++ added ++ rest.drop added.length)
  | 0, _, _, enough, _ => absurd enough (Nat.not_lt_zero _)
  | fuel + 1, ip, history, enough, room => by
    by_cases reading : ip < input.length
    · rcases lzfDecompressTurn_safe input history outLen reading with stops | ⟨ip', added, after, fits, next⟩
      · refine ⟨0, [], by simpa using room, .inl rfl, fun rest size => ?_⟩
        rw [lzfDecompressLoop, if_pos reading, stops rest size]
        simp
      · -- the rest of the run, after the bytes this turn wrote
        obtain ⟨result, more, moreFits, returned, run⟩ := lzfDecompressLoop_safe fuel ip' (history ++ added)
          (by omega) (by simpa using fits)
        refine ⟨result, added ++ more, by simp at moreFits ⊢; omega, ?_, fun rest size => ?_⟩
        · rcases returned with zero | length
          · exact .inl zero
          · exact .inr (by simp [length]; omega)
        have sizeAfter : (history ++ added ++ rest.drop added.length).length = outLen := by
          simp at size fits ⊢
          omega
        rw [lzfDecompressLoop, if_pos reading, next rest size]
        simp only
        rw [← List.length_append, run (rest.drop added.length) (by simpa using sizeAfter), List.drop_drop]
        simp
    · refine ⟨history.length, [], by simpa using room, .inr rfl, fun rest _ => ?_⟩
      rw [lzfDecompressLoop, if_neg reading]
      simp

/-- lzf_decompress on any input and any buffer: no access outside them, a return value of 0 or the number
of bytes written, those written from the start of the buffer and the same whatever it held, the rest of it
untouched. -/
theorem lzfDecompress_safe (out : List UInt8) :
    ∃ result added, added.length ≤ out.length ∧ (result = 0 ∨ result = added.length) ∧
      ∀ out', out'.length = out.length → lzfDecompress input out' = some (result, added ++ out'.drop added.length) := by
  obtain ⟨result, added, fits, returned, run⟩ :=
    lzfDecompressLoop_safe input out.length (input.length + 1) 0 [] (by omega) (by simp)
  refine ⟨result, added, by simpa using fits, by simpa using returned, fun out' size => ?_⟩
  have := run out' (by simpa using size)
  rw [lzfDecompress, size]
  simpa using this

end Safety

end Kv.Lzf
