import GoMongo.Mongo.IndexView

/-!
# How `CreateMany` names its models

`getOrGenerateIndexName` returns the name set on a model's options, or else joins by `_` one
piece `key _ value` per element of the key document, a value shown in decimal or as its string,
and refuses any other type of value.

It reads the name through the model's options, and the loop of `CreateMany` writes the name
it returns back into them. Models that share an options value, in one call or across calls, so
see the name the first of them was given: the names `CreateMany` returns are those of
`getOrGenerateIndexName` against the caller's store only for a model whose options no earlier
model shares, and the caller's options keep the names. On every return, error or not, the
caller's values change in their names only, and not at all where each already has a name.
-/

namespace GoMongo.Mongo

open GoMongo.Bson

theorem getOrGenerateIndexName_congr {s t : Store} (keys : Document) {model : IndexModel}
    (h : ∀ r, model.options = some r → (s r).name = (t r).name) :
    getOrGenerateIndexName s keys model = getOrGenerateIndexName t keys model := by
  unfold getOrGenerateIndexName
  cases ho : model.options with
  | none => rfl
  | some r => simp only [Option.some_bind, h r ho]

theorem getOrGenerateIndexName_of_name {s : Store} (keys : Document) {model : IndexModel}
    {r : Nat} {name : Bytes} (ho : model.options = some r) (hn : (s r).name = some name) :
    getOrGenerateIndexName s keys model = .ok name := by
  simp [getOrGenerateIndexName, ho, hn]

def leSigned (w : Nat) (v : Bytes) : Int :=
  let n : Nat := Nat.ofDigits 256 ((v.take w).map UInt8.toNat)
  if n < 2 ^ (8 * w - 1) then n else (n : Int) - 2 ^ (8 * w)

/-- How a generated name shows a key's value, by the BSON specification: an int32 or an int64
as its signed value in decimal, a string as the bytes between its length and its final NUL. -/
def showValue (e : Element) : Bytes :=
  if e.type = typeString then (e.value.drop 4).dropLast
  else if e.type = typeInt32 then decimalInt (leSigned 4 e.value)
  else decimalInt (leSigned 8 e.value)

theorem toInt_ofLE_take {w : Nat} (hw : 0 < w) (v : Bytes) :
    (BitVec.ofNat (8 * w) (ofLE (v.take w))).toInt = leSigned w v := by
  have hlt : ofLE (v.take w) < 2 ^ (8 * w) :=
    calc ofLE (v.take w) < 256 ^ ((v.take w).map UInt8.toNat).length := by
          rw [ofLE_eq_ofDigits]
          refine Nat.ofDigits_lt_base_pow_length (by norm_num) fun x hx => ?_
          obtain ⟨b, -, rfl⟩ := List.mem_map.1 hx
          exact b.toNat_lt_size
      _ ≤ 256 ^ w := Nat.pow_le_pow_right (by norm_num) (by simp)
      _ = 2 ^ (8 * w) := by rw [pow_mul]; norm_num
  have hpow : (2 : Nat) ^ (8 * w) = 2 * 2 ^ (8 * w - 1) := by
    rw [← pow_succ']; congr 1; omega
  rw [leSigned, ← ofLE_eq_ofDigits, BitVec.toInt, BitVec.toNat_ofNat, Nat.mod_eq_of_lt hlt]
  split_ifs <;> push_cast <;> omega

theorem int32Of_eq_leSigned (v : Bytes) : int32Of v = leSigned 4 v :=
  toInt_ofLE_take (by norm_num) v

theorem int64Of_eq_leSigned (v : Bytes) : int64Of v = leSigned 8 v :=
  toInt_ofLE_take (by norm_num) v

theorem indexValue_eq_none_iff (e : Element) :
    indexValue e = none ↔ e.type ≠ typeInt32 ∧ e.type ≠ typeInt64 ∧ e.type ≠ typeString := by
  unfold indexValue
  split_ifs <;> simp_all

theorem indexValue_of_mem {d : Document} {es : List Element} (hd : readDocument d = some es)
    {e : Element} (he : e ∈ es) (h : e.type = typeInt32 ∨ e.type = typeInt64 ∨ e.type = typeString) :
    indexValue e = some (showValue e) := by
  have hne : typeInt32 ≠ typeInt64 ∧ typeInt32 ≠ typeString ∧ typeInt64 ≠ typeString := by decide
  rcases h with h | h | h
  · simp [indexValue, showValue, h, hne.2.1, formatInt_eq_decimalInt, int32Of_eq_leSigned]
  · simp [indexValue, showValue, h, hne.1.symm, hne.2.2, formatInt_eq_decimalInt,
      int64Of_eq_leSigned]
  · obtain ⟨src, rest, hread⟩ := readDocument_mem hd he
    simp [indexValue, showValue, h, hne.2.1.symm, hne.2.2.symm,
      stringOf_eq_dropLast (readElement_string_length hread h)]

theorem intercalate_cons_flatMap {α : Type} (sep a : List α) (rest : List (List α)) :
    sep.intercalate (a :: rest) = a ++ rest.flatMap (sep ++ ·) := by
  induction rest generalizing a with
  | nil => simp [List.intercalate]
  | cons p ps ih =>
    have h := ih p
    simp only [List.intercalate, List.intersperse, List.flatten_cons] at h ⊢
    rw [h]
    simp [List.append_assoc]

theorem indexNameLoop_rest {es : List Element}
    (h : ∀ e ∈ es, indexValue e = some (showValue e)) (acc : Bytes) :
    indexNameLoop acc false es =
      .ok (acc ++ (es.map fun e => e.key ++ [0x5f] ++ showValue e).flatMap ([0x5f] ++ ·)) := by
  induction es generalizing acc with
  | nil => simp [indexNameLoop]
  | cons e es ih =>
    simp only [indexNameLoop, h e (List.mem_cons_self _ _),
      Bool.false_eq_true, if_false, ih fun e' he' => h e' (List.mem_cons_of_mem _ he')]
    simp [List.append_assoc]

theorem indexNameLoop_invalid {es : List Element}
    (h : ∃ e ∈ es, indexValue e = none) (acc : Bytes) (first : Bool) :
    indexNameLoop acc first es = .error errInvalidIndexValue := by
  induction es generalizing acc first with
  | nil => simp at h
  | cons e es ih =>
    rw [indexNameLoop]
    cases hv : indexValue e with
    | none => rfl
    | some v =>
      obtain ⟨e', he', hv'⟩ := h
      rcases List.mem_cons.1 he' with rfl | he'
      · rw [hv] at hv'; cases hv'
      · exact ih ⟨e', he', hv'⟩ _ _

/-- `getOrGenerateIndexName`: the name the caller set on the model's options, unchanged; and
with none set, on a well-formed key document, `ErrInvalidIndexValue` exactly when some value is
neither an int32, an int64 nor a string, and otherwise the pieces `key _ value` of the elements,
in order, joined by `_`. -/
theorem getOrGenerateIndexName_generates (store : Store) (model : IndexModel) (d : Document) :
    (∀ r name, model.options = some r → (store r).name = some name →
      getOrGenerateIndexName store d model = .ok name) ∧
    ∀ es, readDocument d = some es → (∀ r, model.options = some r → (store r).name = none) →
      (getOrGenerateIndexName store d model = .error errInvalidIndexValue ↔
        ∃ e ∈ es, e.type ≠ typeInt32 ∧ e.type ≠ typeInt64 ∧ e.type ≠ typeString) ∧
      ((∀ e ∈ es, e.type = typeInt32 ∨ e.type = typeInt64 ∨ e.type = typeString) →
        getOrGenerateIndexName store d model =
          .ok ([0x5f].intercalate (es.map fun e => e.key ++ [0x5f] ++ showValue e))) := by
  refine ⟨fun r name hr hn => getOrGenerateIndexName_of_name d hr hn, fun es hd hnone => ?_⟩
  have hgen : getOrGenerateIndexName store d model = indexNameLoop [] true es := by
    have hbind : (model.options.bind fun r => (store r).name) = none := by
      cases hr : model.options with
      | none => rfl
      | some r => exact hnone r hr
    simp [getOrGenerateIndexName, hbind, hd]
  have hok (hall : ∀ e ∈ es, e.type = typeInt32 ∨ e.type = typeInt64 ∨ e.type = typeString) :
      getOrGenerateIndexName store d model =
        .ok ([0x5f].intercalate (es.map fun e => e.key ++ [0x5f] ++ showValue e)) := by
    have hv : ∀ e ∈ es, indexValue e = some (showValue e) := fun e he =>
      indexValue_of_mem hd he (hall e he)
    rw [hgen]
    cases es with
    | nil => rfl
    | cons e es =>
      simp only [indexNameLoop, hv e (List.mem_cons_self _ _), if_true, List.nil_append,
        indexNameLoop_rest fun e' he' => hv e' (List.mem_cons_of_mem _ he'), List.map_cons,
        intercalate_cons_flatMap]
  refine ⟨⟨fun herr => ?_, fun ⟨e, he, ht⟩ => ?_⟩, hok⟩
  · by_contra hno
    push_neg at hno
    rw [hok fun e he => by have := hno e he; tauto] at herr
    cases herr
  · rw [hgen]
    exact indexNameLoop_invalid ⟨e, he, (indexValue_eq_none_iff e).2 ht⟩ [] true

theorem getOrGenerateIndexName_generates_signed_keys :
    let model : IndexModel := ⟨none, none⟩
    let store : Store := fun _ => {}
    let valid : List Element :=
      [⟨typeInt32, goBytes "a", encodeInt32 (-5)⟩, ⟨typeInt64, goBytes "b", toLE 8 (2 ^ 64 - 12)⟩,
        ⟨typeString, goBytes "c", encodeString (goBytes "s")⟩]
    let invalid : List Element :=
      [⟨typeInt32, goBytes "a", encodeInt32 1⟩, ⟨typeBoolean, goBytes "b", encodeBoolean true⟩]
    readDocument (wrapDocument (valid.flatMap Element.bytes)) = some valid ∧
      getOrGenerateIndexName store (wrapDocument (valid.flatMap Element.bytes)) model =
        .ok (goBytes "a_-5_b_-12_c_s") ∧
      readDocument (wrapDocument (invalid.flatMap Element.bytes)) = some invalid ∧
      getOrGenerateIndexName store (wrapDocument (invalid.flatMap Element.bytes)) model =
        .error errInvalidIndexValue := by
  intro model store valid invalid
  have hv : readDocument (wrapDocument (valid.flatMap Element.bytes)) = some valid := by decide
  have hi : readDocument (wrapDocument (invalid.flatMap Element.bytes)) = some invalid := by decide
  have hnone : ∀ r, model.options = some r → (store r).name = none := fun _ h => by cases h
  have ha : showValue ⟨typeInt32, goBytes "a", encodeInt32 (-5)⟩ = goBytes "-5" := by
    rw [showValue, if_neg (by decide), if_pos rfl,
      show leSigned 4 (encodeInt32 (-5)) = -5 by decide]
    simp [decimalInt, decimal]
    rfl
  have hb : showValue ⟨typeInt64, goBytes "b", toLE 8 (2 ^ 64 - 12)⟩ = goBytes "-12" := by
    rw [showValue, if_neg (by decide), if_neg (by decide),
      show leSigned 8 (toLE 8 (2 ^ 64 - 12)) = -12 by decide]
    simp [decimalInt, decimal]
    rfl
  have hc : showValue ⟨typeString, goBytes "c", encodeString (goBytes "s")⟩ = goBytes "s" := by
    rw [showValue, if_pos rfl]
    rfl
  have hshow : valid.map (fun e => e.key ++ [0x5f] ++ showValue e) =
      [goBytes "a_-5", goBytes "b_-12", goBytes "c_s"] := by
    simp only [valid, List.map_cons, List.map_nil, ha, hb, hc]
    rfl
  refine ⟨hv, ?_, hi, ?_⟩
  · rw [((getOrGenerateIndexName_generates store model _).2 valid hv hnone).2 (by decide), hshow]
    decide
  · exact ((getOrGenerateIndexName_generates store model _).2 invalid hi hnone).1.2
      ⟨_, List.mem_cons_of_mem _ (List.mem_singleton_self _), by decide⟩

/-- Two models that share one options value, with no name set, and keys `{a: 1}` and `{b: 1}`:
`CreateOne` names the second `b_1` on its own, but `CreateMany` names both `a_1` and leaves
`a_1` in the caller's value, also when a later model fails, and a later `CreateOne` of the second
model is named `a_1`. -/
theorem shared_options_inherit_name :
    let keys (k : String) : Keys :=
      ⟨false, .ok (wrapDocument (Element.bytes ⟨typeInt32, goBytes k, encodeInt32 1⟩))⟩
    let store : Store := fun _ => {}
    let send : Document → Except Error Unit := fun _ => .ok ()
    let call := createMany store [⟨some (keys "a"), some 0⟩, ⟨some (keys "b"), some 0⟩] send
    let failed := createMany store [⟨some (keys "a"), some 0⟩, ⟨none, none⟩] send
    (createOne store ⟨some (keys "b"), some 0⟩ send).1 = .ok (goBytes "b_1") ∧
      call.1 = .ok [goBytes "a_1", goBytes "a_1"] ∧ call.2 0 = { name := some (goBytes "a_1") } ∧
      (createOne call.2 ⟨some (keys "b"), some 0⟩ send).1 = .ok (goBytes "a_1") ∧
      failed.1 = .error (.errorf ⟨"index model keys cannot be nil", []⟩) ∧
      failed.2 0 = { name := some (goBytes "a_1") } := by
  decide

def NamedAgainst (store : Store) (p : IndexModel × Bytes) : Prop :=
  ∃ keys, p.1.keys.map Keys.marshalled = some (.ok keys) ∧
    getOrGenerateIndexName store keys p.1 = .ok p.2

def SameNameIfShared (p q : IndexModel × Bytes) : Prop :=
  ∀ r, p.1.options = some r → q.1.options = some r → p.2 = q.2

/-- The store and the names after the turns `done` from the caller's `store`: a referenced
options value holds the name of its models and is otherwise the caller's; models that share
options share the name; and a model with nil options, or the first with its options, was named
against the caller's store. -/
structure Naming (store : Store) (done : List (IndexModel × Bytes)) (s : Store) : Prop where
  written : ∀ p ∈ done, ∀ r, p.1.options = some r → s r = { store r with name := some p.2 }
  untouched : ∀ r, (∀ p ∈ done, p.1.options ≠ some r) → s r = store r
  shared : done.Pairwise SameNameIfShared
  nil : ∀ p ∈ done, p.1.options = none → NamedAgainst store p
  first : ∀ r p, done.find? (fun q => q.1.options == some r) = some p → NamedAgainst store p

theorem Naming.start (store : Store) : Naming store [] store :=
  ⟨by simp, fun _ _ => rfl, .nil, by simp, by simp⟩

theorem Naming.sameButNames {store s : Store} {done : List (IndexModel × Bytes)}
    (h : Naming store done s) : SameButNames s store := fun r x => by
  by_cases hr : ∃ p ∈ done, p.1.options = some r
  · obtain ⟨p, hp, hpr⟩ := hr
    rw [h.written p hp r hpr]
  · push_neg at hr
    rw [h.untouched r hr]

theorem Naming.getOrGenerateIndexName_shared {store s : Store} {done : List (IndexModel × Bytes)}
    (hinv : Naming store done s) (keys : Document) {model : IndexModel} {q : IndexModel × Bytes}
    (hq : q ∈ done) {r : Nat} (hqr : q.1.options = some r) (hr : model.options = some r) :
    getOrGenerateIndexName s keys model = .ok q.2 :=
  getOrGenerateIndexName_of_name keys hr (by rw [hinv.written q hq r hqr])

theorem Naming.getOrGenerateIndexName_fresh {store s : Store} {done : List (IndexModel × Bytes)}
    (hinv : Naming store done s) (keys : Document) {model : IndexModel}
    (hno : ∀ q ∈ done, ∀ r, model.options = some r → q.1.options ≠ some r) :
    getOrGenerateIndexName s keys model = getOrGenerateIndexName store keys model :=
  getOrGenerateIndexName_congr keys fun r hr => by rw [hinv.untouched r fun q hq => hno q hq r hr]

theorem Naming.turn {store s s' : Store} {done : List (IndexModel × Bytes)} {i : Nat}
    {indexes indexes' name : Bytes} {model : IndexModel} (hinv : Naming store done s)
    (h : createIndex s i indexes model = (.ok (name, indexes'), s')) :
    Naming store (done ++ [(model, name)]) s' := by
  obtain ⟨k, keys, _, hk, -, hkeys, hname, -, rfl, -⟩ := createIndex_ok h
  have hshared : ∀ q ∈ done, SameNameIfShared q (model, name) := fun q hq r hqr hr =>
    Except.ok.inj ((hinv.getOrGenerateIndexName_shared keys hq hqr hr).symm.trans hname)
  have hfresh (hno : ∀ q ∈ done, ∀ r, model.options = some r → q.1.options ≠ some r) :
      NamedAgainst store (model, name) :=
    ⟨keys, by simp [hk, hkeys], (hinv.getOrGenerateIndexName_fresh keys hno).symm.trans hname⟩
  refine ⟨fun p hp r hpr => ?written, fun r hr => ?untouched, ?shared, fun p hp hnone => ?nil,
    fun r p hp => ?first⟩
  case written =>
    rw [setName_snd]
    rcases List.mem_append.1 hp with hp | hp
    · split_ifs with hr
      · rw [hinv.sameButNames r, hshared p hp r hpr hr]
      · exact hinv.written p hp r hpr
    · rw [List.mem_singleton.1 hp] at hpr ⊢
      rw [if_pos hpr, hinv.sameButNames r]
  case untouched =>
    rw [setName_snd, if_neg (hr (model, name) (by simp))]
    exact hinv.untouched r fun p hp => hr p (by simp [hp])
  case shared =>
    refine List.pairwise_append.2 ⟨hinv.shared, List.pairwise_singleton _ _, fun q hq p hp => ?_⟩
    rw [List.mem_singleton.1 hp]
    exact hshared q hq
  case nil =>
    rcases List.mem_append.1 hp with hp | hp
    · exact hinv.nil p hp hnone
    · rw [List.mem_singleton.1 hp] at hnone ⊢
      exact hfresh fun _ _ r hr => absurd (hr.symm.trans hnone) (Option.some_ne_none r)
  case first =>
    rw [List.find?_append] at hp
    cases hd : done.find? (fun q => q.1.options == some r) with
    | some q => rw [hd] at hp; cases hp; exact hinv.first r _ hd
    | none =>
      rw [hd, Option.none_or, List.find?_singleton] at hp
      split_ifs at hp with hr
      cases hp
      refine hfresh fun q hq r' hr' hqr' => List.find?_eq_none.1 hd q hq ?_
      rw [hqr', Option.some.inj (hr'.symm.trans (beq_iff_eq.1 hr)), beq_self_eq_true]

theorem Accepted.naming {store s s' : Store} {i : Nat} {indexes indexes' : Bytes}
    {models : List IndexModel} {names : List Bytes}
    (h : Accepted s i indexes models names indexes' s') {done : List (IndexModel × Bytes)}
    (hinv : Naming store done s) : Naming store (done ++ models.zip names) s' := by
  induction h generalizing done with
  | nil => simpa using hinv
  | cons hturn _ ih => simpa using ih (hinv.turn hturn)

theorem indexesArray_naming {store : Store} {models : List IndexModel} {names : List Bytes}
    {arr : Document} (h : (indexesArray store models).1 = .ok (names, arr)) :
    names.length = models.length ∧
      Naming store (models.zip names) (indexesArray store models).2 := by
  obtain ⟨_, hacc, -⟩ := indexesArray_ok h
  simpa using And.intro hacc.length_eq (hacc.naming (Naming.start store))

/-- The names `CreateMany` returns: one per model; models that share an options value have one
name; and a model with nil options, or the first model with its options value, is named from
the caller's options or its own keys by `getOrGenerateIndexName`. -/
theorem createMany_names {store : Store} {models : List IndexModel}
    {send : Document → Except Error Unit} {names : List Bytes}
    (h : (createMany store models send).1 = .ok names) :
    names.length = models.length ∧ (models.zip names).Pairwise SameNameIfShared ∧
      (∀ p ∈ models.zip names, p.1.options = none → NamedAgainst store p) ∧
      ∀ r p, (models.zip names).find? (fun q => q.1.options == some r) = some p →
        NamedAgainst store p := by
  obtain ⟨arr, harr, -⟩ := createMany_ok h
  obtain ⟨hlen, hinv⟩ := indexesArray_naming harr
  exact ⟨hlen, hinv.shared, hinv.nil, hinv.first⟩

theorem createMany_names_shared_pair :
    let keys (k : String) : Keys :=
      ⟨false, .ok (wrapDocument (Element.bytes ⟨typeInt32, goBytes k, encodeInt32 1⟩))⟩
    let store : Store := fun _ => {}
    let models : List IndexModel := [⟨some (keys "a"), some 0⟩, ⟨some (keys "b"), some 0⟩]
    let send : Document → Except Error Unit := fun _ => .ok ()
    let names := [goBytes "a_1", goBytes "a_1"]
    (createMany store models send).1 = .ok names ∧
      names.length = models.length ∧ (models.zip names).Pairwise SameNameIfShared ∧
      (∀ p ∈ models.zip names, p.1.options = none → NamedAgainst store p) ∧
      ∀ r p, (models.zip names).find? (fun q => q.1.options == some r) = some p →
        NamedAgainst store p := by
  intro keys store models send names
  have h : (createMany store models send).1 = .ok names := by decide
  exact ⟨h, createMany_names h⟩

theorem find?_options_of_nodup {l : List (IndexModel × Bytes)}
    (hl : (l.filterMap fun q => q.1.options).Nodup) {p : IndexModel × Bytes} (hp : p ∈ l) {r : Nat}
    (hr : p.1.options = some r) : l.find? (fun q => q.1.options == some r) = some p := by
  induction l with
  | nil => cases hp
  | cons q l ih =>
    rw [List.find?_cons]
    by_cases hq : q.1.options = some r
    · rw [@List.filterMap_cons_some _ _ (fun q : IndexModel × Bytes => q.1.options) q l r hq,
        List.nodup_cons] at hl
      rcases List.mem_cons.1 hp with rfl | hp
      · rw [beq_iff_eq.2 hq]
      · exact absurd (List.mem_filterMap.2 ⟨p, hp, hr⟩) hl.1
    · have hl' := hl.sublist ((List.sublist_cons_self q l).filterMap _)
      rcases List.mem_cons.1 hp with rfl | hp
      · exact absurd hr hq
      · rw [beq_eq_false_iff_ne.2 hq, ih hl' hp]

/-- Where the models of a call reference different options values, each is named from the
caller's options or its own keys by `getOrGenerateIndexName`. -/
theorem createMany_names_unshared {store : Store} {models : List IndexModel}
    {send : Document → Except Error Unit} {names : List Bytes}
    (h : (createMany store models send).1 = .ok names)
    (hunshared : (models.filterMap IndexModel.options).Nodup) :
    ∀ p ∈ models.zip names, NamedAgainst store p := by
  obtain ⟨arr, harr, -⟩ := createMany_ok h
  obtain ⟨hlen, hinv⟩ := indexesArray_naming harr
  have hrefs : ((models.zip names).filterMap fun q => q.1.options) =
      models.filterMap IndexModel.options := by
    rw [← List.map_fst_zip models names hlen.ge, List.filterMap_map, List.map_fst_zip _ _ hlen.ge]
    rfl
  intro p hp
  cases hr : p.1.options with
  | none => exact hinv.nil p hp hr
  | some r => exact hinv.first r p (find?_options_of_nodup (hrefs ▸ hunshared) hp hr)

theorem createMany_names_unshared_pair :
    let keys (k : String) : Keys :=
      ⟨false, .ok (wrapDocument (Element.bytes ⟨typeInt32, goBytes k, encodeInt32 1⟩))⟩
    let store : Store := fun r => if r = 1 then { name := some (goBytes "ix") } else {}
    let models : List IndexModel := [⟨some (keys "a"), some 0⟩, ⟨some (keys "b"), some 1⟩]
    let send : Document → Except Error Unit := fun _ => .ok ()
    let names := [goBytes "a_1", goBytes "ix"]
    (createMany store models send).1 = .ok names ∧ (models.filterMap IndexModel.options).Nodup ∧
      ∀ p ∈ models.zip names, NamedAgainst store p := by
  intro keys store models send names
  have h : (createMany store models send).1 = .ok names := by decide
  have hunshared : (models.filterMap IndexModel.options).Nodup := by decide
  exact ⟨h, hunshared, createMany_names_unshared h hunshared⟩

/-- The caller's store after `CreateMany`, whatever the command returns once the loop accepted
the models: each referenced options value holds its models' name, and the others are unchanged. -/
theorem createMany_store {store : Store} {models : List IndexModel} {names : List Bytes}
    {arr : Document} (h : (indexesArray store models).1 = .ok (names, arr))
    (send : Document → Except Error Unit) :
    (∀ p ∈ models.zip names, ∀ r, p.1.options = some r →
        (createMany store models send).2 r = { store r with name := some p.2 }) ∧
      ∀ r, (∀ m ∈ models, m.options ≠ some r) → (createMany store models send).2 r = store r := by
  obtain ⟨-, hinv⟩ := indexesArray_naming h
  rw [createMany_snd]
  exact ⟨hinv.written, fun r hr => hinv.untouched r fun p hp => hr p.1 (List.of_mem_zip hp).1⟩

theorem createMany_store_failed_command :
    let keys (k : String) : Keys :=
      ⟨false, .ok (wrapDocument (Element.bytes ⟨typeInt32, goBytes k, encodeInt32 1⟩))⟩
    let store : Store := fun _ => {}
    let models : List IndexModel := [⟨some (keys "a"), some 0⟩, ⟨some (keys "b"), some 0⟩]
    let send : Document → Except Error Unit := fun _ => .error (.errorf ⟨"command failed", []⟩)
    let names := [goBytes "a_1", goBytes "a_1"]
    ∃ arr, (indexesArray store models).1 = .ok (names, arr) ∧
      (∀ p ∈ models.zip names, ∀ r, p.1.options = some r →
        (createMany store models send).2 r = { store r with name := some p.2 }) ∧
      ∀ r, (∀ m ∈ models, m.options ≠ some r) → (createMany store models send).2 r = store r := by
  intro keys store models send names
  have h : (indexesArray store models).1 =
      .ok (names, ((indexesArray store models).1.toOption.map (·.2)).getD []) := by decide
  exact ⟨_, h, createMany_store h send⟩

theorem setName_of_named {store : Store} {keys : Document} {model : IndexModel} {name : Bytes}
    (hnamed : ∀ r, model.options = some r → (store r).name.isSome)
    (h : getOrGenerateIndexName store keys model = .ok name) :
    (setName store model.options name).2 = store := by
  cases hr : model.options with
  | none => rfl
  | some r =>
    obtain ⟨n, hn⟩ := Option.isSome_iff_exists.1 (hnamed r hr)
    cases (getOrGenerateIndexName_of_name keys hr hn).symm.trans h
    rw [setName, ← hn]
    exact Function.update_eq_self r store

theorem createIndexes_sameButNames {store s : Store} (hs : SameButNames s store) (i : Nat)
    (names : List Bytes) (indexes : Bytes) (models : List IndexModel) :
    SameButNames (createIndexes s i names indexes models).2 store := by
  induction models generalizing s i names indexes with
  | nil => exact hs
  | cons model models ih =>
    have hturn : SameButNames (createIndex s i indexes model).2 store := by
      rcases createIndex_snd s i indexes model with h | ⟨_, _, _, h⟩ <;> rw [h]
      exacts [hs, hs.setName _ _]
    unfold createIndexes
    split
    · next heq => rw [heq] at hturn; exact hturn
    · next heq => rw [heq] at hturn; exact ih hturn _ _ _

theorem createIndexes_of_named {store : Store} (i : Nat) (names : List Bytes) (indexes : Bytes)
    {models : List IndexModel}
    (hnamed : ∀ m ∈ models, ∀ r, m.options = some r → (store r).name.isSome) :
    (createIndexes store i names indexes models).2 = store := by
  induction models generalizing i names indexes with
  | nil => rfl
  | cons model models ih =>
    have hturn : (createIndex store i indexes model).2 = store := by
      rcases createIndex_snd store i indexes model with h | ⟨_, _, hcheck, h⟩
      · exact h
      · obtain ⟨-, -, -, -, hname⟩ := checkIndexModel_ok.1 hcheck
        rw [h, setName_of_named (hnamed model (List.mem_cons_self _ _)) hname]
    unfold createIndexes
    split
    · next heq => rw [heq] at hturn; exact hturn
    · next heq =>
      rw [heq] at hturn
      subst hturn
      exact ih _ _ _ fun m hm => hnamed m (List.mem_cons_of_mem _ hm)

theorem indexesArray_snd (store : Store) (models : List IndexModel) :
    (indexesArray store models).2 = (createIndexes store 0 [] [0, 0, 0, 0] models).2 := by
  unfold indexesArray
  simp only [show appendArrayStart [] = (0, [0, 0, 0, 0]) from rfl]
  split <;> simp_all

/-- On every return, success or error, `CreateMany` changes the caller's `IndexOptions` values
in their names at most. -/
theorem createMany_changes_only_names (store : Store) (models : List IndexModel)
    (send : Document → Except Error Unit) (r : Nat) (name : Option Bytes) :
    { (createMany store models send).2 r with name := name } = { store r with name := name } := by
  rw [createMany_snd, indexesArray_snd]
  exact createIndexes_sameButNames (fun _ _ => rfl) 0 [] [0, 0, 0, 0] models r name

/-- On every return, `CreateMany` leaves the caller's store as it was when every model has nil
options or references a value that already has a name. -/
theorem createMany_of_named {store : Store} {models : List IndexModel}
    (hnamed : ∀ m ∈ models, ∀ r, m.options = some r → (store r).name.isSome)
    (send : Document → Except Error Unit) : (createMany store models send).2 = store := by
  rw [createMany_snd, indexesArray_snd]
  exact createIndexes_of_named 0 [] [0, 0, 0, 0] hnamed

theorem createMany_of_named_preset :
    let keys (k : String) : Keys :=
      ⟨false, .ok (wrapDocument (Element.bytes ⟨typeInt32, goBytes k, encodeInt32 1⟩))⟩
    let store : Store := fun _ => { name := some (goBytes "ix") }
    let models : List IndexModel := [⟨some (keys "a"), some 0⟩, ⟨some (keys "b"), none⟩]
    let send : Document → Except Error Unit := fun _ => .ok ()
    (∀ m ∈ models, ∀ r, m.options = some r → (store r).name.isSome) ∧
      (createMany store models send).2 = store := by
  intro keys store models send
  have hnamed : ∀ m ∈ models, ∀ r, m.options = some r → (store r).name.isSome :=
    fun _ _ _ _ => rfl
  exact ⟨hnamed, createMany_of_named hnamed send⟩

theorem Accepted.rerun {store s s' t : Store} {i : Nat} {indexes indexes' : Bytes}
    {models : List IndexModel} {names : List Bytes}
    (h : Accepted s i indexes models names indexes' s') (hs : SameButNames s store)
    (ht : ∀ p ∈ models.zip names, ∀ r, p.1.options = some r → t r = { store r with name := some p.2 })
    (acc : List Bytes) :
    createIndexes t i acc indexes models = (.ok (acc ++ names, indexes'), t) := by
  induction h generalizing acc with
  | nil => simp [createIndexes]
  | @cons s _ _ _ _ _ _ name model _ _ hturn _ ih =>
    simp only [List.zip_cons_cons, List.mem_cons, forall_eq_or_imp] at ht
    obtain ⟨k, keys, optsDoc, hk, hmap, hkeys, hname, hopts, rfl, rfl⟩ := createIndex_ok hturn
    have hnamed : ∀ r, model.options = some r → (t r).name = some name := fun r hr => by
      rw [ht.1 r hr]
    have hname' : getOrGenerateIndexName t keys model = .ok name := by
      cases hr : model.options with
      | none => rwa [getOrGenerateIndexName_congr keys fun r h => by simp [hr] at h]
      | some r => exact getOrGenerateIndexName_of_name keys hr (hnamed r hr)
    have hopts' : createOptionsDoc { optionsOf t model with name := some name } = .ok optsDoc := by
      rw [← hopts]
      unfold optionsOf
      split
      · rfl
      · next r hr => rw [ht.1 r hr, hs r]
    have hset : (setName t model.options name).2 = t :=
      setName_of_named (fun r hr => by simp [hnamed r hr]) hname'
    rw [createIndexes, createIndex_of_check (checkIndexModel_ok.2 ⟨k, hk, hmap, hkeys, hname'⟩)
      hopts', hset]
    simpa using ih (hs.setName _ _) ht.2 (acc ++ [name])

/-- `CreateMany` called again with the same models on the store a first call left, after that
call's loop accepted them and whatever its command returned: the loop accepts them again and
builds byte for byte the same `indexes` array, so the same command is sent; it returns the same
names when the command succeeds; and no `IndexOptions` value changes. -/
theorem createMany_retry {store : Store} {models : List IndexModel} {names : List Bytes}
    {arr : Document} (h : (indexesArray store models).1 = .ok (names, arr))
    (send send' : Document → Except Error Unit) :
    let s := (createMany store models send).2
    indexesArray s models = (.ok (names, arr), s) ∧
      createMany s models send' = ((send' arr).map fun _ => names, s) := by
  intro s
  obtain ⟨indexes, hacc, hend⟩ := indexesArray_ok h
  obtain ⟨-, hinv⟩ := indexesArray_naming h
  have hwritten := hinv.written
  rw [← createMany_snd store models send] at hwritten
  have harr : indexesArray s models = (.ok (names, arr), s) := by
    unfold indexesArray
    simp only [show appendArrayStart [] = (0, [0, 0, 0, 0]) from rfl,
      hacc.rerun (fun _ _ => rfl) hwritten [], List.nil_append, hend]
    rfl
  exact ⟨harr, by simp only [createMany, harr]⟩

theorem createMany_retry_failed_command :
    let keys (k : String) : Keys :=
      ⟨false, .ok (wrapDocument (Element.bytes ⟨typeInt32, goBytes k, encodeInt32 1⟩))⟩
    let store : Store := fun _ => {}
    let models : List IndexModel := [⟨some (keys "a"), some 0⟩, ⟨some (keys "b"), some 0⟩]
    let send : Document → Except Error Unit := fun _ => .error (.errorf ⟨"command failed", []⟩)
    let send' : Document → Except Error Unit := fun _ => .ok ()
    let names := [goBytes "a_1", goBytes "a_1"]
    ∃ arr, (indexesArray store models).1 = .ok (names, arr) ∧
      let s := (createMany store models send).2
      indexesArray s models = (.ok (names, arr), s) ∧
        createMany s models send' = ((send' arr).map fun _ => names, s) := by
  intro keys store models send send' names
  have h : (indexesArray store models).1 =
      .ok (names, ((indexesArray store models).1.toOption.map (·.2)).getD []) := by decide
  exact ⟨_, h, createMany_retry h send send'⟩

end GoMongo.Mongo
