import NetworkStack.Lib.ByteStream
import Mathlib.Data.List.Basic

/-!
# Sealed frames

A frame is an IV, a text enciphered with a keystream of that IV, and a tag over
the IV and the enciphered text. `sealFrame` makes one and `openFrame` returns the
text of a frame whose tag is right. Opening inverts sealing, and a frame that
opens is the seal of the text it opens to under the IV it starts with; so what
an authenticated store can be made to return is decided by which frames were
sealed.
-/

namespace SealedFrame

open ByteStream

variable {ivLen tagLen : Nat}

/-- The three parts of a frame. -/
def ivOf (ivLen : Nat) (frame : List UInt8) : List UInt8 := frame.take ivLen

def bodyOf (ivLen tagLen : Nat) (frame : List UInt8) : List UInt8 :=
  (frame.drop ivLen).take (frame.length - ivLen - tagLen)

def tagOf (tagLen : Nat) (frame : List UInt8) : List UInt8 :=
  frame.drop (frame.length - tagLen)

theorem length_ivOf {frame : List UInt8} (long : ivLen + tagLen ≤ frame.length) :
    (ivOf ivLen frame).length = ivLen := by
  rw [ivOf, List.length_take]
  omega

/-- A frame is the concatenation of its parts. -/
theorem parts_append {frame : List UInt8} (long : ivLen + tagLen ≤ frame.length) :
    ivOf ivLen frame ++ (bodyOf ivLen tagLen frame ++ tagOf tagLen frame) = frame := by
  have rest : tagOf tagLen frame = (frame.drop ivLen).drop (frame.length - ivLen - tagLen) := by
    rw [tagOf, List.drop_drop]
    congr 1
    omega
  rw [rest, bodyOf, List.take_append_drop, ivOf, List.take_append_drop]

/-- The parts of a concatenation. -/
theorem parts_of_append {iv tag : List UInt8} (body : List UInt8) (ivLength : iv.length = ivLen)
    (tagLength : tag.length = tagLen) :
    ivOf ivLen (iv ++ (body ++ tag)) = iv ∧
      bodyOf ivLen tagLen (iv ++ (body ++ tag)) = body ∧
      tagOf tagLen (iv ++ (body ++ tag)) = tag := by
  have size : (iv ++ (body ++ tag)).length - ivLen - tagLen = body.length := by
    simp only [List.length_append]
    omega
  have position : (iv ++ (body ++ tag)).length - tagLen = ivLen + body.length := by
    simp only [List.length_append]
    omega
  refine ⟨List.take_left' ivLength, ?_, ?_⟩
  · rw [bodyOf, size, List.drop_left' ivLength, List.take_left' rfl]
  · rw [tagOf, position, ← List.drop_drop, List.drop_left' ivLength, List.drop_left' rfl]

variable (ks : List UInt8 → Nat → UInt8) (tag : List UInt8 → List UInt8 → List UInt8)

/-- IV, enciphered text and tag. -/
def sealFrame (iv plain : List UInt8) : List UInt8 :=
  iv ++ (xorStream (ks iv) 0 plain ++ tag iv (xorStream (ks iv) 0 plain))

/-- The text of a frame with the right tag. -/
def openFrame (ivLen tagLen : Nat) (frame : List UInt8) : Option (List UInt8) :=
  if frame.length < ivLen + tagLen then none
  else if tag (ivOf ivLen frame) (bodyOf ivLen tagLen frame) = tagOf tagLen frame then
    some (xorStream (ks (ivOf ivLen frame)) 0 (bodyOf ivLen tagLen frame))
  else none

theorem length_sealFrame {iv : List UInt8} (plain : List UInt8) (ivLength : iv.length = ivLen)
    (tagLength : ∀ body, (tag iv body).length = tagLen) :
    (sealFrame ks tag iv plain).length = ivLen + (plain.length + tagLen) := by
  simp only [sealFrame, List.length_append, ivLength, length_xorStream, tagLength]

variable {ks tag}

/-- A sealed frame opens to its text. -/
theorem openFrame_sealFrame {iv : List UInt8} (plain : List UInt8) (ivLength : iv.length = ivLen)
    (tagLength : ∀ body, (tag iv body).length = tagLen) :
    openFrame ks tag ivLen tagLen (sealFrame ks tag iv plain) = some plain := by
  obtain ⟨ivPart, bodyPart, tagPart⟩ :=
    parts_of_append (xorStream (ks iv) 0 plain) ivLength
      (tagLength (xorStream (ks iv) 0 plain))
  rw [openFrame, if_neg (by rw [length_sealFrame ks tag plain ivLength tagLength]; omega)]
  simp only [sealFrame, ivPart, bodyPart, tagPart, if_true, xorStream_xorStream]

/-- A frame that opens is long enough and is the seal of what it opens to. -/
theorem eq_sealFrame_of_open {frame plain : List UInt8}
    (opens : openFrame ks tag ivLen tagLen frame = some plain) :
    ivLen + tagLen ≤ frame.length ∧ frame = sealFrame ks tag (ivOf ivLen frame) plain := by
  unfold openFrame at opens
  split at opens
  · cases opens
  rename_i short
  have long : ivLen + tagLen ≤ frame.length := by omega
  split at opens
  · rename_i right
    cases opens
    refine ⟨long, ?_⟩
    rw [sealFrame, xorStream_xorStream, right]
    exact (parts_append long).symm
  · cases opens

end SealedFrame
