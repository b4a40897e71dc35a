import GoMongo.Go

/-!
# bsoncore: elements, documents and the append primitives

The part of `x/bsonx/bsoncore` the index code uses, on bytes, with the meaning the BSON
specification gives it. A document is its int32 length, its elements and a NUL; an element is
its type byte, its key as a C string and its value. `readElement` and `readDocument` take bytes
apart by that grammar, as `ReadElement` and `Document.Elements` do on the documents the grammar
accepts; `readElements` reads at most as many elements as there are bytes, since each takes
at least two. Integers are little-endian, and a length is written as the low 32 bits of the
number, as `UpdateLength` writes an `int32`.
-/

namespace GoMongo.Bson

def toLE : Nat → Nat → Bytes
  | 0, _ => []
  | w + 1, n => UInt8.ofNat n :: toLE w (n / 256)

def ofLE : Bytes → Nat
  | [] => 0
  | b :: bs => b.toNat + 256 * ofLE bs

theorem uint8_toNat_ofNat (n : Nat) : (UInt8.ofNat n).toNat = n % 256 :=
  BitVec.toNat_ofNat n 8

@[simp] theorem length_toLE (w n : Nat) : (toLE w n).length = w := by
  induction w generalizing n with
  | zero => rfl
  | succ w ih => simp [toLE, ih]

theorem ofLE_toLE (w n : Nat) : ofLE (toLE w n) = n % 256 ^ w := by
  induction w generalizing n with
  | zero => simp [toLE, ofLE, Nat.mod_one]
  | succ w ih =>
    rw [toLE, ofLE, ih, uint8_toNat_ofNat, pow_succ', Nat.mod_mul]

theorem ofLE_toLE_of_lt {w n : Nat} (h : n < 256 ^ w) : ofLE (toLE w n) = n := by
  rw [ofLE_toLE, Nat.mod_eq_of_lt h]

theorem ofLE_eq_ofDigits (v : Bytes) : ofLE v = Nat.ofDigits 256 (v.map UInt8.toNat) := by
  induction v with
  | nil => rfl
  | cons b v ih => rw [ofLE, ih, List.map_cons, Nat.ofDigits_cons]

structure Element where
  type : UInt8
  key : Bytes
  value : Bytes
  deriving DecidableEq, Repr

def Element.bytes (e : Element) : Bytes := e.type :: (e.key ++ 0 :: e.value)

abbrev Document := Bytes

def readCString : Bytes → Option (Bytes × Bytes)
  | [] => none
  | c :: s => if c = 0 then some ([], s) else (readCString s).map fun r => (c :: r.1, r.2)

/-- `ReadLength`: a little-endian int32 at the front. A negative length, which Go reads as one,
is a number of at least `2^31` here; either way no element or document of that length fits. -/
def readLength : Bytes → Option (Nat × Bytes)
  | b0 :: b1 :: b2 :: b3 :: rest => some (ofLE [b0, b1, b2, b3], rest)
  | _ => none

def valueLength (t : UInt8) (src : Bytes) : Option Nat :=
  -- embedded document, array, code with scope
  if t = 0x03 ∨ t = 0x04 ∨ t = 0x0f then (readLength src).map (·.1)
  -- binary: length, subtype, data
  else if t = 0x05 then (readLength src).map (·.1 + 5)
  else if t = 0x08 then some 1
  -- DBPointer: string, ObjectID
  else if t = 0x0c then (readLength src).map (·.1 + 16)
  -- datetime, double, int64, timestamp
  else if t = 0x09 ∨ t = 0x01 ∨ t = 0x12 ∨ t = 0x11 then some 8
  else if t = 0x13 then some 16
  else if t = 0x10 then some 4
  -- JavaScript, string, symbol
  else if t = 0x0d ∨ t = 0x02 ∨ t = 0x0e then (readLength src).map (·.1 + 4)
  -- max key, min key, null, undefined
  else if t = 0x7f ∨ t = 0xff ∨ t = 0x0a ∨ t = 0x06 then some 0
  else if t = 0x07 then some 12
  -- regex: pattern and options, two C strings
  else if t = 0x0b then do
    let (pattern, rest) ← readCString src
    let (options, _) ← readCString rest
    pure (pattern.length + 1 + options.length + 1)
  else none

def readElement : Bytes → Option (Element × Bytes)
  | [] => none
  | t :: src => do
    let (key, rest) ← readCString src
    let n ← valueLength t rest
    if n ≤ rest.length then some (⟨t, key, rest.take n⟩, rest.drop n) else none

def readElements : Nat → Bytes → Option (List Element)
  | _, [] => some []
  | 0, _ :: _ => none
  | fuel + 1, b :: bs => do
    let (e, rest) ← readElement (b :: bs)
    let es ← readElements fuel rest
    pure (e :: es)

def elementsOf (src : Bytes) : Option (List Element) := readElements src.length src

/-- A document by the BSON grammar: its int32 length, which is its whole length, then elements
and a final NUL. -/
def readDocument (d : Bytes) : Option (List Element) := do
  let (len, body) ← readLength d
  if len = d.length ∧ len < 2 ^ 31 ∧ body.getLast? = some 0 then elementsOf body.dropLast
  else none

def appendHeader (dst : Bytes) (t : UInt8) (key : Bytes) : Bytes := dst ++ t :: (key ++ [0])

/-- `AppendXElement(dst, key, value)` of bsoncore appends the element with that type, key and
the value bytes `AppendX(nil, value)` writes. -/
def appendElement (dst : Bytes) (e : Element) : Bytes := dst ++ e.bytes

def typeDouble : UInt8 := 0x01
def typeString : UInt8 := 0x02
def typeEmbeddedDocument : UInt8 := 0x03
def typeBoolean : UInt8 := 0x08
def typeInt32 : UInt8 := 0x10
def typeInt64 : UInt8 := 0x12

def encodeInt32 (i : BitVec 32) : Bytes := toLE 4 i.toNat

def encodeString (s : Bytes) : Bytes := toLE 4 (s.length + 1) ++ s ++ [0]

def encodeBoolean (b : Bool) : Bytes := [if b then 1 else 0]

def encodeDouble (bits : BitVec 64) : Bytes := toLE 8 bits.toNat

def documentElement (key doc : Bytes) : Element := ⟨typeEmbeddedDocument, key, doc⟩

def reserveLength (dst : Bytes) : Nat × Bytes := (dst.length, dst ++ [0, 0, 0, 0])

def updateLength (dst : Bytes) (index length : Nat) : Bytes :=
  dst.take index ++ toLE 4 length ++ dst.drop (index + 4)

def appendDocumentStart (dst : Bytes) : Nat × Bytes := reserveLength dst

def appendDocumentElementStart (dst key : Bytes) : Nat × Bytes :=
  appendDocumentStart (appendHeader dst 0x03 key)

def appendDocument (dst doc : Bytes) : Bytes := dst ++ doc

def appendDocumentEnd (dst : Bytes) (index : Nat) : Except Error Bytes :=
  if dst.length < index + 4 then
    throw (.errorf ⟨"not enough bytes available after index to write length", []⟩)
  else pure (updateLength (dst ++ [0]) index (dst.length + 1 - index))

def appendArrayStart (dst : Bytes) : Nat × Bytes := reserveLength dst

def appendArrayEnd (dst : Bytes) (index : Nat) : Except Error Bytes := appendDocumentEnd dst index

def wrapDocument (body : Bytes) : Bytes := toLE 4 (body.length + 5) ++ body ++ [0]

theorem appendDocumentEnd_reserved (pre body : Bytes) :
    appendDocumentEnd ((reserveLength pre).2 ++ body) (reserveLength pre).1 =
      .ok (pre ++ wrapDocument body) := by
  have hlen : (pre ++ [0, 0, 0, 0] ++ body).length + 1 - pre.length = body.length + 5 := by
    simp only [List.length_append, List.length_cons, List.length_nil]; omega
  simp only [reserveLength, appendDocumentEnd, updateLength, wrapDocument, hlen]
  rw [if_neg (by simp)]
  simp [List.take_append_of_le_length, List.drop_append_of_le_length]
  rfl

theorem readLength_toLE (n : Nat) (rest : Bytes) :
    readLength (toLE 4 n ++ rest) = some (n % 256 ^ 4, rest) := by
  rw [← ofLE_toLE]; rfl

theorem readCString_append {key : Bytes} (h : 0 ∉ key) (rest : Bytes) :
    readCString (key ++ 0 :: rest) = some (key, rest) := by
  induction key with
  | nil => simp [readCString]
  | cons c key ih =>
    simp only [List.mem_cons, not_or] at h
    simp [readCString, Ne.symm h.1, ih h.2]

def ValueReadable (t : UInt8) (v : Bytes) : Prop := ∀ rest, valueLength t (v ++ rest) = some v.length

structure Element.Readable (e : Element) : Prop where
  key : 0 ∉ e.key
  value : ValueReadable e.type e.value

theorem encodeString_readable {s : Bytes} (h : s.length + 1 < 2 ^ 32) :
    ValueReadable typeString (encodeString s) := fun rest => by
  have hlen : valueLength typeString (encodeString s ++ rest) =
      (readLength (toLE 4 (s.length + 1) ++ (s ++ [0] ++ rest))).map (·.1 + 4) := by
    simp only [encodeString, List.append_assoc]; rfl
  rw [hlen, readLength_toLE, Nat.mod_eq_of_lt (by omega)]
  simp [encodeString]
  omega

theorem readElement_bytes {e : Element} (he : e.Readable) (rest : Bytes) :
    readElement (e.bytes ++ rest) = some (e, rest) := by
  simp [Element.bytes, readElement, readCString_append he.key, he.value rest]

theorem readElements_bytes {es : List Element} (hes : ∀ e ∈ es, e.Readable) {fuel : Nat}
    (hfuel : es.length ≤ fuel) : readElements fuel (es.flatMap Element.bytes) = some es := by
  induction es generalizing fuel with
  | nil => simp [readElements]
  | cons e es ih =>
    obtain ⟨fuel, rfl⟩ : ∃ f, fuel = f + 1 := ⟨fuel - 1, by simp at hfuel; omega⟩
    have hread := readElement_bytes (hes e (List.mem_cons_self e es)) (es.flatMap Element.bytes)
    have hrest := ih (fun e' he' => hes e' (List.mem_cons_of_mem e he')) (by simpa using hfuel)
    simp only [List.flatMap_cons, Element.bytes, List.cons_append, List.append_assoc] at hread ⊢
    simp [readElements, hread, hrest]

theorem elementsOf_bytes {es : List Element} (hes : ∀ e ∈ es, e.Readable) :
    elementsOf (es.flatMap Element.bytes) = some es := by
  apply readElements_bytes hes
  induction es with
  | nil => simp
  | cons e es ih =>
    simp only [List.length_cons, List.flatMap_cons, List.length_append, Element.bytes]
    have := ih fun e' he' => hes e' (List.mem_cons_of_mem e he')
    omega

theorem readElements_mem {fuel : Nat} {src : Bytes} {es : List Element}
    (h : readElements fuel src = some es) {e : Element} (he : e ∈ es) :
    ∃ src' rest, readElement src' = some (e, rest) :=
  match fuel, src, h with
  | _, [], h => by rw [readElements] at h; cases Option.some.inj h; cases he
  | fuel + 1, b :: bs, h => by
    rw [readElements] at h
    obtain ⟨⟨e', rest⟩, hread, h⟩ := Option.bind_eq_some.1 h
    obtain ⟨es', hrest, h⟩ := Option.bind_eq_some.1 h
    cases Option.some.inj h
    rcases List.mem_cons.1 he with rfl | he
    exacts [⟨_, _, hread⟩, readElements_mem hrest he]

theorem readDocument_mem {d : Bytes} {es : List Element} (h : readDocument d = some es)
    {e : Element} (he : e ∈ es) : ∃ src rest, readElement src = some (e, rest) := by
  unfold readDocument at h
  obtain ⟨⟨len, body⟩, -, h⟩ := Option.bind_eq_some.1 h
  dsimp only at h
  split_ifs at h
  exact readElements_mem h he

theorem readElement_string_length {src rest : Bytes} {e : Element}
    (h : readElement src = some (e, rest)) (ht : e.type = typeString) :
    e.value.length = ofLE (e.value.take 4) + 4 := by
  match src, h with
  | t :: src, h =>
    rw [readElement] at h
    obtain ⟨⟨key, rest'⟩, -, h⟩ := Option.bind_eq_some.1 h
    obtain ⟨n, hn, h⟩ := Option.bind_eq_some.1 h
    split_ifs at h with hle
    cases Option.some.inj h
    subst ht
    match rest', hn with
    | b0 :: b1 :: b2 :: b3 :: r, hn =>
      cases Option.some.inj hn
      simp only [List.length_cons] at hle
      simp
      omega

theorem readDocument_wrap {body : Bytes} (h : body.length + 5 < 2 ^ 31) :
    readDocument (wrapDocument body) = elementsOf body := by
  have hlt : body.length + 5 < 256 ^ 4 := by omega
  unfold readDocument wrapDocument
  rw [List.append_assoc, readLength_toLE, Nat.mod_eq_of_lt hlt]
  simp [h, List.dropLast_concat]
  omega

def int32Of (v : Bytes) : Int := (BitVec.ofNat 32 (ofLE (v.take 4))).toInt

def int64Of (v : Bytes) : Int := (BitVec.ofNat 64 (ofLE (v.take 8))).toInt

def stringOf (v : Bytes) : Bytes := (v.drop 4).take (ofLE (v.take 4) - 1)

theorem stringOf_eq_dropLast {v : Bytes} (h : v.length = ofLE (v.take 4) + 4) :
    stringOf v = (v.drop 4).dropLast := by
  rw [List.dropLast_eq_take, List.length_drop, h, Nat.add_sub_cancel]
  rfl

theorem stringOf_encodeString {s : Bytes} (h : s.length + 1 < 2 ^ 32) :
    stringOf (encodeString s) = s := by
  have hlen : ofLE (toLE 4 (s.length + 1)) = s.length + 1 := ofLE_toLE_of_lt (by omega)
  simp [stringOf, encodeString, List.take_append_of_le_length, List.drop_append_of_le_length,
    hlen]

end GoMongo.Bson
