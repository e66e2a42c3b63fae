import Kv.Sds.Edit
import Kv.Foundations.Run

/-!
The sds calls run one after another, each on the string the one before it
returns (the caller's `s = sdscatlen(s, ...)`): sdsnewlen starts a string over,
the others resize, grow, write into or cut the one they are given. Every string
such a run leaves has a header valid for its type, and its content is what the
string operation each call stands for makes of the content before it.
-/

namespace Kv.Sds

open Foundations

inductive SdsCall where
  | newlen (init : List UInt8)
  | makeRoomFor (addlen : Nat)
  | makeRoomForNonGreedy (addlen : Nat)
  | resize (size : Nat) (wouldRegrow : Bool)
  | removeFreeSpace (wouldRegrow : Bool)
  | catlen (t : List UInt8)
  | cpylen (t : List UInt8)
  | growzero (len : Nat)
  | incrLen (incr : Int)
  | substr (start len : Nat)
  | trim (cset : List UInt8)
  deriving DecidableEq, Repr

def sdsCall (a : Allocator) (s : SdsString) : SdsCall → Option SdsString
  | .newlen init => sdsnewlen a init
  | .makeRoomFor addlen => sdsMakeRoomFor a s addlen
  | .makeRoomForNonGreedy addlen => sdsMakeRoomForNonGreedy a s addlen
  | .resize size wouldRegrow => sdsResize a s size wouldRegrow
  | .removeFreeSpace wouldRegrow => sdsRemoveFreeSpace a s wouldRegrow
  | .catlen t => sdscatlen a s t
  | .cpylen t => sdscpylen a s t
  | .growzero len => sdsgrowzero a s len
  | .incrLen incr => sdsIncrLen s incr
  | .substr start len => sdssubstr s start len
  | .trim cset => sdstrim s cset

/-- The calls made within what the code relies on: sdsIncrLen within the bounds it asserts, and with its new
terminator inside the allocation, which its assertion does not check under SDS_TYPE_5. -/
def sdsCallAllowed (s : SdsString) : SdsCall → Bool
  | .incrLen incr => sdsIncrLenAsserted s incr && decide (s.len + incr < s.buf.length)
  | _ => true

/-- What each call makes of the content, as a string operation: sdsIncrLen takes in the bytes past the content,
the old terminator first, and sdstrim cuts the bytes strchr finds, the NUL byte among them. -/
def sdsCallSpec : List UInt8 → SdsCall → List UInt8 → Prop
  | _, .newlen init, c' => c' = init
  | c, .makeRoomFor _, c' => c' = c
  | c, .makeRoomForNonGreedy _, c' => c' = c
  | c, .resize size _, c' => c' = c.take size
  | c, .removeFreeSpace _, c' => c' = c
  | c, .catlen t, c' => c' = c ++ t
  | _, .cpylen t, c' => c' = t
  | c, .growzero len, c' => c' = c ++ List.replicate (len - c.length) 0
  | c, .incrLen incr, c' => ∃ spare, c' = (c ++ 0 :: spare).take (c.length + incr).toNat
  | c, .substr start len, c' => c' = (c.drop start).take len
  | c, .trim cset, c' => c' = (c.dropWhile (strchr cset)).rdropWhile (strchr cset)

/-- One call on a valid string, made within what the code relies on, leaves a valid string holding what the call
stands for. -/
theorem sdsCall_spec (a : Allocator) {s : SdsString} (valid : s.Valid) {call : SdsCall}
    (allowed : sdsCallAllowed s call = true) :
    ∃ s', sdsCall a s call = some s' ∧ s'.Valid ∧ sdsCallSpec (sdsContent s) call (sdsContent s') := by
  have length := valid.length_content
  cases call with
  | newlen init => exact _sdsnewlen_spec a init
  | makeRoomFor addlen =>
    obtain ⟨s', made, valid', content, -⟩ := _sdsMakeRoomFor_spec a valid addlen true
    exact ⟨s', made, valid', content⟩
  | makeRoomForNonGreedy addlen =>
    obtain ⟨s', made, valid', content, -⟩ := _sdsMakeRoomFor_spec a valid addlen false
    exact ⟨s', made, valid', content⟩
  | resize size wouldRegrow => exact sdsResize_spec a valid size wouldRegrow
  | removeFreeSpace wouldRegrow =>
    obtain ⟨s', resized, valid', content⟩ := sdsResize_spec a valid (sdslen s) wouldRegrow
    exact ⟨s', resized, valid', show _ = _ by rw [content, List.take_of_length_le length.le]⟩
  | catlen t => exact sdscatlen_spec a valid t
  | cpylen t => exact sdscpylen_spec a valid t
  | growzero len =>
    obtain ⟨s', grown, valid', content⟩ := sdsgrowzero_spec a valid len
    exact ⟨s', grown, valid', show _ = _ by rw [content, length]⟩
  | incrLen incr =>
    simp only [sdsCallAllowed, Bool.and_eq_true, decide_eq_true_eq] at allowed
    obtain ⟨s', moved, valid', spare, content⟩ := sdsIncrLen_spec valid allowed.1 allowed.2
    exact ⟨s', moved, valid', spare, by rw [content, length]; rfl⟩
  | substr start len => exact sdssubstr_spec valid start len
  | trim cset => exact sdstrim_spec valid cset

end Kv.Sds
