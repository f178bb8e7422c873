import Mathlib.Data.List.GetD

/-!
# SHA-256 and SHA-1

The two digests of FIPS 180-4 over byte lists, with their lowercase hexadecimal form.
Words are natural numbers below `2 ^ 32`, so that a digest can be evaluated by the kernel.
-/

namespace Hledac.Lib

/-- Byte sequences, in their list model. -/
abbrev Bytes := List UInt8

namespace Digest

/-- The word modulus. -/
def wordSize : Nat := 4294967296

/-- Rotate a word right by `n` bits. -/
def rotr (n x : Nat) : Nat := (x >>> n) ||| ((x <<< (32 - n)) % wordSize)

/-- Rotate a word left by `n` bits. -/
def rotl (n x : Nat) : Nat := rotr (32 - n) x

/-- The `k` low bytes of a number, most significant first. -/
def bigEndian (n : Nat) : Nat → List Nat
  | 0 => []
  | k + 1 => (n >>> (8 * k)) % 256 :: bigEndian n k

/-- Group bytes into big-endian words of four. -/
def words : List Nat → List Nat
  | a :: b :: c :: d :: rest => (((a * 256 + b) * 256 + c) * 256 + d) :: words rest
  | _ => []

/-- The message, a one bit, zeros up to eight bytes before a block's end, the bit length. -/
def pad (msg : List Nat) : List Nat :=
  msg ++ 128 :: (List.replicate ((119 - msg.length % 64) % 64) 0 ++
    bigEndian (8 * msg.length) 8)

/-- Fold a compression function over the blocks of sixteen words. -/
def foldBlocks (compress : List Nat → List Nat → List Nat) :
    Nat → List Nat → List Nat → List Nat
  | 0, _, state => state
  | n + 1, ws, state => foldBlocks compress n (ws.drop 16) (compress state (ws.take 16))

/-- Extend a message schedule, kept newest first, by `n` words. -/
def extend (next : List Nat → Nat) : Nat → List Nat → List Nat
  | 0, w => w
  | n + 1, w => extend next n (next w :: w)

/-- Add two states word by word. -/
def addWords (xs ys : List Nat) : List Nat :=
  List.zipWith (fun x y => (x + y) % wordSize) xs ys

/-- Lowercase hexadecimal digits. -/
def hexDigit (n : Nat) : Char :=
  ['0', '1', '2', '3', '4', '5', '6', '7', '8', '9', 'a', 'b', 'c', 'd', 'e', 'f'].getD n '0'

/-- Two hexadecimal digits for each byte of each word. -/
def hexWords (ws : List Nat) : List Char :=
  ws.flatMap fun w => (bigEndian w 4).flatMap fun b => [hexDigit (b / 16), hexDigit (b % 16)]

/-- Pad, group and compress a message, and print the final state. -/
def hexdigest (compress : List Nat → List Nat → List Nat) (init : List Nat) (msg : Bytes) :
    String :=
  let p := pad (msg.map UInt8.toNat)
  String.ofList (hexWords (foldBlocks compress (p.length / 64) (words p) init))

/-! ### SHA-256 -/

/-- The sixty-four round constants of SHA-256. -/
def k256 : List Nat :=
  [0x428a2f98, 0x71374491, 0xb5c0fbcf, 0xe9b5dba5, 0x3956c25b, 0x59f111f1, 0x923f82a4, 0xab1c5ed5,
   0xd807aa98, 0x12835b01, 0x243185be, 0x550c7dc3, 0x72be5d74, 0x80deb1fe, 0x9bdc06a7, 0xc19bf174,
   0xe49b69c1, 0xefbe4786, 0x0fc19dc6, 0x240ca1cc, 0x2de92c6f, 0x4a7484aa, 0x5cb0a9dc, 0x76f988da,
   0x983e5152, 0xa831c66d, 0xb00327c8, 0xbf597fc7, 0xc6e00bf3, 0xd5a79147, 0x06ca6351, 0x14292967,
   0x27b70a85, 0x2e1b2138, 0x4d2c6dfc, 0x53380d13, 0x650a7354, 0x766a0abb, 0x81c2c92e, 0x92722c85,
   0xa2bfe8a1, 0xa81a664b, 0xc24b8b70, 0xc76c51a3, 0xd192e819, 0xd6990624, 0xf40e3585, 0x106aa070,
   0x19a4c116, 0x1e376c08, 0x2748774c, 0x34b0bcb5, 0x391c0cb3, 0x4ed8aa4a, 0x5b9cca4f, 0x682e6ff3,
   0x748f82ee, 0x78a5636f, 0x84c87814, 0x8cc70208, 0x90befffa, 0xa4506ceb, 0xbef9a3f7, 0xc67178f2]

/-- The next SHA-256 schedule word, from the sixteen before it. -/
def next256 (w : List Nat) : Nat :=
  let x := w.getD 14 0
  let y := w.getD 1 0
  let sigma0 := rotr 7 x ^^^ rotr 18 x ^^^ (x >>> 3)
  let sigma1 := rotr 17 y ^^^ rotr 19 y ^^^ (y >>> 10)
  (sigma1 + w.getD 6 0 + sigma0 + w.getD 15 0) % wordSize

/-- One SHA-256 round. -/
def round256 : List Nat → Nat → Nat → List Nat
  | [a, b, c, d, e, f, g, h], k, w =>
    let sum1 := rotr 6 e ^^^ rotr 11 e ^^^ rotr 25 e
    let ch := (e &&& f) ^^^ ((wordSize - 1 - e) &&& g)
    let t1 := h + sum1 + ch + k + w
    let sum0 := rotr 2 a ^^^ rotr 13 a ^^^ rotr 22 a
    let maj := (a &&& b) ^^^ (a &&& c) ^^^ (b &&& c)
    [(t1 + sum0 + maj) % wordSize, a, b, c, (d + t1) % wordSize, e, f, g]
  | state, _, _ => state

/-- The sixty-four rounds over the schedule. -/
def rounds256 : List Nat → List Nat → List Nat → List Nat
  | k :: ks, w :: ws, state => rounds256 ks ws (round256 state k w)
  | _, _, state => state

/-- SHA-256 compression of one block. -/
def compress256 (state block : List Nat) : List Nat :=
  addWords state (rounds256 k256 (extend next256 48 block.reverse).reverse state)

/-- `hashlib.sha256(msg).hexdigest()`. -/
def sha256 (msg : Bytes) : String :=
  hexdigest compress256
    [0x6a09e667, 0xbb67ae85, 0x3c6ef372, 0xa54ff53a, 0x510e527f, 0x9b05688c, 0x1f83d9ab,
      0x5be0cd19] msg

/-! ### SHA-1 -/

/-- The next SHA-1 schedule word. -/
def next1 (w : List Nat) : Nat :=
  rotl 1 (w.getD 2 0 ^^^ w.getD 7 0 ^^^ w.getD 13 0 ^^^ w.getD 15 0)

/-- One SHA-1 round; the round number selects the Boolean function and the constant. -/
def round1 (t w : Nat) : List Nat → List Nat
  | [a, b, c, d, e] =>
    let (f, k) :=
      if t < 20 then ((b &&& c) ^^^ ((wordSize - 1 - b) &&& d), 0x5a827999)
      else if t < 40 then (b ^^^ c ^^^ d, 0x6ed9eba1)
      else if t < 60 then ((b &&& c) ^^^ (b &&& d) ^^^ (c &&& d), 0x8f1bbcdc)
      else (b ^^^ c ^^^ d, 0xca62c1d6)
    [(rotl 5 a + f + e + k + w) % wordSize, a, rotl 30 b, c, d]
  | state => state

/-- The rounds over the schedule, numbered from `t`. -/
def rounds1 : Nat → List Nat → List Nat → List Nat
  | t, w :: ws, state => rounds1 (t + 1) ws (round1 t w state)
  | _, [], state => state

/-- SHA-1 compression of one block. -/
def compress1 (state block : List Nat) : List Nat :=
  addWords state (rounds1 0 (extend next1 64 block.reverse).reverse state)

/-- `hashlib.sha1(msg).hexdigest()`. -/
def sha1 (msg : Bytes) : String :=
  hexdigest compress1 [0x67452301, 0xefcdab89, 0x98badcfe, 0x10325476, 0xc3d2e1f0] msg

/-! ### Laws -/

/-- A character a hexadecimal digest may contain. -/
def IsHex (c : Char) : Prop :=
  c ∈ ['0', '1', '2', '3', '4', '5', '6', '7', '8', '9', 'a', 'b', 'c', 'd', 'e', 'f']

instance : DecidablePred IsHex := fun _ => inferInstanceAs (Decidable (_ ∈ _))

private theorem isHex_hexDigit (n : Nat) : IsHex (hexDigit n) := by
  unfold hexDigit IsHex
  by_cases h : n < 16
  · rw [List.getD_eq_getElem _ _ h]
    exact List.getElem_mem _
  · rw [List.getD_eq_default _ _ (by simpa using h)]
    simp

theorem isHex_of_mem_hexdigest (compress : List Nat → List Nat → List Nat) (init : List Nat)
    (msg : Bytes) (c : Char) (h : c ∈ (hexdigest compress init msg).toList) : IsHex c := by
  simp only [hexdigest, hexWords, String.toList_ofList, List.mem_flatMap, List.mem_cons,
    List.not_mem_nil, or_false] at h
  obtain ⟨_, _, _, _, rfl | rfl⟩ := h <;> exact isHex_hexDigit _

theorem isHex_of_mem_sha256 (msg : Bytes) (c : Char) (h : c ∈ (sha256 msg).toList) : IsHex c :=
  isHex_of_mem_hexdigest _ _ msg c h

theorem isHex_of_mem_sha1 (msg : Bytes) (c : Char) (h : c ∈ (sha1 msg).toList) : IsHex c :=
  isHex_of_mem_hexdigest _ _ msg c h

private theorem length_hexWords (ws : List Nat) : (hexWords ws).length = 8 * ws.length := by
  induction ws with
  | nil => rfl
  | cons w ws ih =>
    simp only [hexWords, List.flatMap_cons, List.length_append, List.length_cons] at ih ⊢
    rw [ih]
    simp [bigEndian]
    omega

private theorem length_addWords (xs ys : List Nat) (h : xs.length = ys.length) :
    (addWords xs ys).length = xs.length := by
  simp [addWords, h]

private theorem length_foldBlocks {compress : List Nat → List Nat → List Nat} {k : Nat}
    (hc : ∀ s b, s.length = k → (compress s b).length = k) (n : Nat) (ws state : List Nat)
    (h : state.length = k) : (foldBlocks compress n ws state).length = k := by
  induction n generalizing ws state with
  | zero => exact h
  | succ n ih => exact ih _ _ (hc _ _ h)

private theorem length_round256 (state : List Nat) (k w : Nat) (h : state.length = 8) :
    (round256 state k w).length = 8 := by
  unfold round256
  split
  · rfl
  · exact h

private theorem length_rounds256 (ks ws state : List Nat) (h : state.length = 8) :
    (rounds256 ks ws state).length = 8 := by
  induction ks generalizing ws state with
  | nil => simpa [rounds256] using h
  | cons k ks ih =>
    cases ws with
    | nil => simpa [rounds256] using h
    | cons w ws => exact ih _ _ (length_round256 _ _ _ h)

/-- A SHA-256 digest has sixty-four digits. -/
theorem length_sha256 (msg : Bytes) : (sha256 msg).length = 64 := by
  have hc : ∀ s b : List Nat, s.length = 8 → (compress256 s b).length = 8 := by
    intro s b h
    rw [compress256, length_addWords, h]
    rw [length_rounds256 _ _ _ h, h]
  rw [← String.length_toList]
  simp only [sha256, hexdigest, String.toList_ofList]
  rw [length_hexWords, length_foldBlocks hc _ _ _ rfl]

private theorem length_rounds1 (t : Nat) (ws state : List Nat) (h : state.length = 5) :
    (rounds1 t ws state).length = 5 := by
  induction ws generalizing t state with
  | nil => simpa [rounds1] using h
  | cons w ws ih =>
    apply ih
    unfold round1
    split
    · rfl
    · exact h

/-- A SHA-1 digest has forty digits. -/
theorem length_sha1 (msg : Bytes) : (sha1 msg).length = 40 := by
  have hc : ∀ s b : List Nat, s.length = 5 → (compress1 s b).length = 5 := by
    intro s b h
    rw [compress1, length_addWords, h]
    rw [length_rounds1 _ _ _ h, h]
  rw [← String.length_toList]
  simp only [sha1, hexdigest, String.toList_ofList]
  rw [length_hexWords, length_foldBlocks hc _ _ _ rfl]

end Digest

end Hledac.Lib
