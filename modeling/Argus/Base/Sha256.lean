import Argus.Base.Digits

/-!
# SHA-256

The hash function of FIPS 180-4 on bytes, with 32-bit words as naturals below `2 ^ 32`. It is written
so that the kernel can evaluate it on the short texts the development hashes.
-/

namespace Argus.Sha256

/-- The size of a word's range. -/
def wordSize : ℕ := 2 ^ 32

/-- The first 32 bits of the fractional parts of the cube roots of the first 64 primes. -/
def roundConstants : List ℕ :=
  [0x428a2f98, 0x71374491, 0xb5c0fbcf, 0xe9b5dba5, 0x3956c25b, 0x59f111f1, 0x923f82a4, 0xab1c5ed5,
    0xd807aa98, 0x12835b01, 0x243185be, 0x550c7dc3, 0x72be5d74, 0x80deb1fe, 0x9bdc06a7, 0xc19bf174,
    0xe49b69c1, 0xefbe4786, 0x0fc19dc6, 0x240ca1cc, 0x2de92c6f, 0x4a7484aa, 0x5cb0a9dc, 0x76f988da,
    0x983e5152, 0xa831c66d, 0xb00327c8, 0xbf597fc7, 0xc6e00bf3, 0xd5a79147, 0x06ca6351, 0x14292967,
    0x27b70a85, 0x2e1b2138, 0x4d2c6dfc, 0x53380d13, 0x650a7354, 0x766a0abb, 0x81c2c92e, 0x92722c85,
    0xa2bfe8a1, 0xa81a664b, 0xc24b8b70, 0xc76c51a3, 0xd192e819, 0xd6990624, 0xf40e3585, 0x106aa070,
    0x19a4c116, 0x1e376c08, 0x2748774c, 0x34b0bcb5, 0x391c0cb3, 0x4ed8aa4a, 0x5b9cca4f, 0x682e6ff3,
    0x748f82ee, 0x78a5636f, 0x84c87814, 0x8cc70208, 0x90befffa, 0xa4506ceb, 0xbef9a3f7, 0xc67178f2]

/-- The eight working words. -/
structure State where
  a : ℕ
  b : ℕ
  c : ℕ
  d : ℕ
  e : ℕ
  f : ℕ
  g : ℕ
  h : ℕ

/-- The first 32 bits of the fractional parts of the square roots of the first eight primes. -/
def initial : State :=
  ⟨0x6a09e667, 0xbb67ae85, 0x3c6ef372, 0xa54ff53a, 0x510e527f, 0x9b05688c, 0x1f83d9ab, 0x5be0cd19⟩

/-- Rotation to the right by `n`. -/
def rotr (n x : ℕ) : ℕ := (x >>> n) ||| ((x <<< (32 - n)) % wordSize)

def choose (x y z : ℕ) : ℕ := (x &&& y) ^^^ ((wordSize - 1 - x) &&& z)

def majority (x y z : ℕ) : ℕ := (x &&& y) ^^^ (x &&& z) ^^^ (y &&& z)

def bigSigma0 (x : ℕ) : ℕ := rotr 2 x ^^^ rotr 13 x ^^^ rotr 22 x

def bigSigma1 (x : ℕ) : ℕ := rotr 6 x ^^^ rotr 11 x ^^^ rotr 25 x

def smallSigma0 (x : ℕ) : ℕ := rotr 7 x ^^^ rotr 18 x ^^^ (x >>> 3)

def smallSigma1 (x : ℕ) : ℕ := rotr 17 x ^^^ rotr 19 x ^^^ (x >>> 10)

/-- The last sixteen words of the message schedule, oldest first, followed by the next one. -/
def nextWord : List ℕ → ℕ
  | [w0, w1, _, _, _, _, _, _, _, w9, _, _, _, _, w14, _] =>
    (smallSigma1 w14 + w9 + smallSigma0 w1 + w0) % wordSize
  | _ => 0

/-- One round with its constant and schedule word. -/
def round (k w : ℕ) (s : State) : State :=
  let t1 := s.h + bigSigma1 s.e + choose s.e s.f s.g + k + w
  let t2 := bigSigma0 s.a + majority s.a s.b s.c
  ⟨(t1 + t2) % wordSize, s.a, s.b, s.c, (s.d + t1) % wordSize, s.e, s.f, s.g⟩

/-- The rounds of one block; `window` holds the schedule words from the current one on. -/
def rounds : List ℕ → List ℕ → State → State
  | [], _, s => s
  | k :: ks, window, s =>
    rounds ks (window.tail ++ [nextWord window]) (round k (window.headD 0) s)

/-- The compression function. -/
def compress (s : State) (block : List ℕ) : State :=
  let r := rounds roundConstants block s
  ⟨(s.a + r.a) % wordSize, (s.b + r.b) % wordSize, (s.c + r.c) % wordSize, (s.d + r.d) % wordSize,
    (s.e + r.e) % wordSize, (s.f + r.f) % wordSize, (s.g + r.g) % wordSize, (s.h + r.h) % wordSize⟩

/-- Four big-endian bytes to a word, over the whole list. -/
def words : List ℕ → List ℕ
  | b0 :: b1 :: b2 :: b3 :: rest => (((b0 * 256 + b1) * 256 + b2) * 256 + b3) :: words rest
  | _ => []

/-- The message followed by `0x80`, zeros up to 56 modulo 64 bytes, and its length in bits. -/
def pad (message : List ℕ) : List ℕ :=
  let bits := message.length * 8
  message ++ 0x80 :: (List.replicate ((119 - message.length % 64) % 64) 0 ++
    (List.range 8).map fun i => bits / 256 ^ (7 - i) % 256)

/-- The blocks of sixteen words in turn, at most `fuel` of them. -/
def absorb : ℕ → List ℕ → State → State
  | 0, _, s => s
  | fuel + 1, ws, s => if ws = [] then s else absorb fuel (ws.drop 16) (compress s (ws.take 16))

/-- A word's bytes, big-endian. -/
def wordBytes (w : ℕ) : List ℕ :=
  [w / 256 ^ 3 % 256, w / 256 ^ 2 % 256, w / 256 % 256, w % 256]

/-- The digest of a message, both as bytes. -/
def sum256 (message : List ℕ) : List ℕ :=
  let ws := words (pad message)
  let s := absorb ws.length ws initial
  [s.a, s.b, s.c, s.d, s.e, s.f, s.g, s.h].flatMap wordBytes

/-! ## Bytes of text and text of bytes -/

open Digits (Text)

/-- The UTF-8 bytes of a text. -/
def utf8 (t : Text) : List ℕ := t.flatMap fun c => (String.utf8EncodeChar c).map UInt8.toNat

/-- Lower-case hexadecimal text. -/
def hexText (bytes : List ℕ) : Text :=
  bytes.flatMap fun b => [Nat.digitChar (b / 16), Nat.digitChar (b % 16)]

theorem utf8_injective : Function.Injective utf8 := by
  intro s t h
  have hbytes : ∀ t : Text, utf8 t = (t.flatMap String.utf8EncodeChar).map UInt8.toNat := fun t => by
    rw [utf8, List.map_flatMap]
  rw [hbytes, hbytes] at h
  have hinj : Function.Injective UInt8.toNat := fun _ _ => UInt8.toNat_inj.mp
  have hencode : List.utf8Encode s = List.utf8Encode t := by
    rw [List.utf8Encode, List.utf8Encode, List.map_injective_iff.mpr hinj h]
  have hdecode := congrArg ByteArray.utf8Decode? hencode
  rw [List.utf8Decode?_utf8Encode, List.utf8Decode?_utf8Encode, Option.some_inj] at hdecode
  simpa using congrArg Array.toList hdecode

theorem length_utf8_of_ascii {t : Text} (h : ∀ c ∈ t, (String.utf8EncodeChar c).length = 1) :
    (utf8 t).length = t.length := by
  induction t with
  | nil => rfl
  | cons c t ih =>
    have hc := h c List.mem_cons_self
    have ht := ih fun d hd => h d (List.mem_cons_of_mem _ hd)
    simp only [utf8, List.flatMap_cons, List.length_append, List.length_map, hc,
      List.length_cons] at ht ⊢
    omega

theorem hexText_injOn {a b : List ℕ} (ha : ∀ x ∈ a, x < 256) (hb : ∀ x ∈ b, x < 256)
    (h : hexText a = hexText b) : a = b := by
  have hdigit : ∀ m n : Fin 16, Nat.digitChar m = Nat.digitChar n → m = n := by decide
  induction a generalizing b with
  | nil =>
    cases b with
    | nil => rfl
    | cons y ys => simp [hexText] at h
  | cons x xs ih =>
    cases b with
    | nil => simp [hexText] at h
    | cons y ys =>
      simp only [hexText, List.flatMap_cons, List.cons_append, List.nil_append,
        List.cons.injEq] at h
      obtain ⟨hhigh, hlow, hrest⟩ := h
      have hx := ha x List.mem_cons_self
      have hy := hb y List.mem_cons_self
      have h1 := hdigit ⟨x / 16, by omega⟩ ⟨y / 16, by omega⟩ hhigh
      have h2 := hdigit ⟨x % 16, by omega⟩ ⟨y % 16, by omega⟩ hlow
      simp only [Fin.mk.injEq] at h1 h2
      have hxy : x = y := by omega
      rw [hxy, ih (fun z hz => ha z (List.mem_cons_of_mem _ hz))
        (fun z hz => hb z (List.mem_cons_of_mem _ hz)) hrest]

@[simp] theorem length_hexText (bytes : List ℕ) : (hexText bytes).length = 2 * bytes.length := by
  induction bytes with
  | nil => rfl
  | cons b bs ih =>
    simp only [hexText, List.flatMap_cons, List.length_append, List.length_cons,
      List.length_nil] at ih ⊢
    omega

theorem exists_of_mem_hexText {bytes : List ℕ} (h : ∀ b ∈ bytes, b < 256) {c : Char}
    (hc : c ∈ hexText bytes) : ∃ n : Fin 16, c = Nat.digitChar n := by
  obtain ⟨b, hb, hc⟩ := List.mem_flatMap.mp hc
  have hlt := h b hb
  simp only [List.mem_cons, List.not_mem_nil, or_false] at hc
  rcases hc with rfl | rfl
  · exact ⟨⟨b / 16, by omega⟩, rfl⟩
  · exact ⟨⟨b % 16, by omega⟩, rfl⟩

theorem length_sum256 (message : List ℕ) : (sum256 message).length = 32 := by
  simp [sum256, wordBytes]

theorem sum256_lt (message : List ℕ) : ∀ b ∈ sum256 message, b < 256 := by
  intro b hb
  obtain ⟨w, -, hw⟩ := List.mem_flatMap.mp hb
  simp only [wordBytes, List.mem_cons, List.not_mem_nil, or_false] at hw
  omega

end Argus.Sha256
