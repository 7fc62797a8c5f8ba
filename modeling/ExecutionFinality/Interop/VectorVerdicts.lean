import ExecutionFinality.Interop.IssuedBundles
import ExecutionFinality.Interop.NodeRuntime
import ExecutionFinality.Interop.TextAgreement
import ExecutionFinality.Interop.VectorRunners

/-! What the runners of the three languages make of one vector file. -/
namespace ExecutionFinality
open Utf8 (Bytes)
open KeyedEntries
open CheckChains
open Utf16 (Scalar)
open Go (Named)

/-! What Node's canonicalizer returns has no unpaired surrogate. -/

namespace Node
variable {pf : Platform}

private theorem scalar_js (s : String) : Scalar (js s) := ⟨_,rfl⟩

private theorem scalar_append {u v : JsStr} (hu : Scalar u) (hv : Scalar v) : Scalar (u ++ v) := by
  obtain ⟨s,rfl⟩ := hu
  obtain ⟨t,rfl⟩ := hv
  exact ⟨s ++ t,(Utf16.encode_append s t).symm⟩

private theorem scalar_intercalate {sep : JsStr} {us : List JsStr} (hsep : Scalar sep) (h : ∀ u ∈ us, Scalar u) :
    Scalar (sep.intercalate us) := by
  induction us with
  | nil => exact ⟨[],rfl⟩
  | cons u us ih =>
    have hu := h u (List.mem_cons_self ..)
    have hus := ih fun v hv => h v (List.mem_cons_of_mem _ hv)
    cases us with
    | nil => simpa using hu
    | cons v us =>
      rw [List.intercalate_cons_cons]
      exact scalar_append (scalar_append hu hsep) hus

theorem scalar_canonical (v : JsVal) : ∀ s, canonical pf v = .ok s → Scalar s := by
  induction v using JsVal.recOn_members with
  | undefined => exact fun _ h => nomatch h
  | null =>
    intro s h
    cases h
    exact scalar_js _
  | bool b =>
    intro s h
    cases b <;> cases h <;> exact scalar_js _
  | number x =>
    intro s h
    obtain ⟨w,hw,_⟩ := canonical_eq_ok.mp h
    simp only [normalizeCanonical,bind_eq_ok,failIf_eq_ok,not_not] at hw
    obtain ⟨_,hsafe,_⟩ := hw
    cases x with
    | finite q =>
      simp only [isSafeInteger,decide_eq_true_eq] at hsafe
      rw [← (Rat.den_eq_one_iff q).mp hsafe.1] at h
      exact ⟨_,(canonical_number.mp h).2⟩
    | _ => cases hsafe
  | string u =>
    intro s h
    obtain ⟨cs,_,rfl⟩ := canonical_string.mp h
    exact ⟨_,rfl⟩
  | array xs ih =>
    intro s h
    obtain ⟨ss,hss,rfl⟩ := canonical_array.mp h
    refine scalar_append (scalar_append (scalar_js _) (scalar_intercalate (scalar_js _) fun u hu => ?_)) (scalar_js _)
    obtain ⟨x,hx,hu⟩ := forall₂_of_mem_right hss hu
    exact ih x hx u hu
  | object es ih =>
    intro s h
    obtain ⟨ms,hms,_,rfl⟩ := canonical_object.mp h
    refine scalar_append (scalar_append (scalar_js _) (scalar_intercalate (scalar_js _) fun u hu => ?_)) (scalar_js _)
    obtain ⟨m,hm,rfl⟩ := List.mem_map.mp hu
    obtain ⟨e,he,_,hv⟩ := forall₂_of_mem_right hms ((mem_sortOn id).mp hm)
    exact scalar_append (scalar_append ⟨_,rfl⟩ (scalar_js _)) (ih e he _ hv)

end Node

/-! The member of a name, as each language reads it -/
section
variable {es : List (List UInt16 × JsonDoc)} {name : String} {x : JsonDoc}

theorem Go.Named.mem_assigned (h : Named es name x) : (Utf16.encode name.toList,x) ∈ assigned es := by
  obtain ⟨e,he,hname⟩ := List.mem_map.mp (mem_keys_assigned (List.mem_map_of_mem h.mem))
  have hex : e = (Utf16.encode name.toList,x) := h.eq_of_mem (mem_of_mem_assigned he) (by rw [hname,Utf16.decode_encode])
  exact hex ▸ he

private theorem item_dict (ms : List (PyStr × PyVal)) :
    (PyVal.dict (ms.map fun m => (.str m.1,m.2))).item name = ms.lookup (py name) := by
  induction ms with
  | nil => rfl
  | cons m ms ih =>
    obtain ⟨k,v⟩ := m
    rw [List.lookup_cons,← ih]
    by_cases hk : k = py name
    · simp [PyVal.item,hk]
    · simp [PyVal.item,hk,beq_false_of_ne (Ne.symm hk)]

theorem item_of_named (h : Named es name x) : (PyVal.reading.value (.obj es)).item name = some (PyVal.reading.value x) := by
  have hkeys : ∀ k ∈ keys es, (fun _ => True) k := fun _ _ => trivial
  rw [JsonReading.value_obj PyVal.reading_separates hkeys]
  refine (item_dict _).trans ((lookup_eq_some (JsonReading.nodup_members PyVal.reading_separates hkeys)).mpr ?_)
  refine List.mem_map.mpr ⟨_,h.mem_assigned,Prod.ext ?_ rfl⟩
  exact (ofChars_eq_codePoints name.toList).symm

theorem field_of_named (h : Named es name x) : Node.field (Node.reading.value (.obj es)) name = Node.reading.value x := by
  have hkeys : ∀ k ∈ keys es, (fun _ => True) k := fun _ _ => trivial
  have hn := JsonReading.nodup_members Node.reading_separates hkeys
  rw [JsonReading.value_obj Node.reading_separates hkeys]
  have hperm := Node.ownOrder_perm ((assigned es).map fun e => (Node.reading.key e.1,Node.reading.value e.2))
  have hlookup : (Node.ownOrder ((assigned es).map fun e => (Node.reading.key e.1,Node.reading.value e.2))).lookup (js name) =
      some (Node.reading.value x) := by
    rw [lookup_perm ((hperm.map _).nodup_iff.mpr hn) hperm,lookup_eq_some hn]
    exact List.mem_map.mpr ⟨_,h.mem_assigned,rfl⟩
  exact congrArg (Option.getD · .undefined) hlookup

theorem get_of_named (h : Named es name x) : Node.get (Node.reading.value (.obj es)) name = .ok (Node.reading.value x) :=
  congrArg Except.ok (field_of_named h)

theorem eqStr_reading {u : List UInt16} {cs : List Char} :
    (PyVal.reading.value (.str u)).eqStr (PyStr.ofChars cs) = true ↔ u = Utf16.encode cs := by
  change decide (Utf16.codePoints u = PyStr.ofChars cs) = true ↔ _
  rw [decide_eq_true_eq,ofChars_eq_codePoints]
  exact Utf16.codePoints_injective.eq_iff

/-- The tests of a list of cases pass when each case, as it is written, passes the test. -/
theorem parametrized_iff {α : Type} {R : α → JsonDoc → Prop} {P : α → Prop} {cs : List α} {xs : List JsonDoc}
    {test : PyVal → Option Unit} (h : List.Forall₂ R cs xs)
    (hid : ∀ c x, R c x → ∃ u es, x = .obj es ∧ Named es "id" (.str u))
    (htest : ∀ c x, R c x → (test (PyVal.reading.value x) = some () ↔ P c)) :
    Platform.parametrized (PyVal.reading.value (.arr xs)) test = some () ↔ ∀ c ∈ cs, P c := by
  rw [JsonReading.value_arr,forall_mem_iff h fun c x hc => (htest c x hc).symm]
  refine forM_eq_some.trans (List.forall_mem_map.trans (forall₂_congr fun x hx => ?_))
  obtain ⟨c,_,hc⟩ := forall₂_of_mem_right h hx
  obtain ⟨u,es,rfl,hu⟩ := hid c x hc
  rw [item_of_named hu,Option.bind_eq_bind,Option.bind_some]

end

/-! One vector -/

/-- A vector as a file has it -/
structure VectorCase where
  id : List UInt16
  value : JsonDoc
  canonical : List UInt16
  sha : List UInt16
  hmac : List UInt16

namespace VectorCase
variable {c : VectorCase} {d : JsonDoc}

def fields (c : VectorCase) : List (String × JsonDoc) :=
  [("id",.str c.id),("value",c.value),("canonical_utf8",.str c.canonical),("sha256",.str c.sha),
    ("hmac_sha256",.str c.hmac)]

def WrittenAs (c : VectorCase) (d : JsonDoc) : Prop := Go.HasMembers c.fields d

/-- What Go decodes it to -/
def go (c : VectorCase) : Go.Vector :=
  ⟨Go.text c.id,Go.reading.value c.value,Go.text c.canonical,Go.text c.sha,Go.text c.hmac⟩

theorem WrittenAs.decode (h : c.WrittenAs d) (u : Go.Vector) : Go.Vector.type.decode d u = some c.go := by
  refine Go.HasMembers.decode (S := fun n v => (n = "id" → v.id = c.go.id) ∧ (n = "value" → v.value = c.go.value) ∧
    (n = "canonical_utf8" → v.canonical = c.go.canonical) ∧ (n = "sha256" → v.sha = c.go.sha) ∧
    (n = "hmac_sha256" → v.hmac = c.go.hmac)) h (by decide) ?_ (fun w hw => ?_) u
  · simp only [Go.Vector.type,List.forall_mem_cons]
    refine ⟨⟨.str c.id,.head _,fun _ => ⟨_,rfl,?_⟩⟩,⟨c.value,.tail _ (.head _),fun _ => ⟨_,rfl,?_⟩⟩,
      ⟨.str c.canonical,by simp [fields],fun _ => ⟨_,rfl,?_⟩⟩,⟨.str c.sha,by simp [fields],fun _ => ⟨_,rfl,?_⟩⟩,
      ⟨.str c.hmac,by simp [fields],fun _ => ⟨_,rfl,?_⟩⟩,by simp⟩ <;> grind [go]
  · simp only [Go.Vector.type,List.forall_mem_cons] at hw
    obtain ⟨⟨hid,_⟩,⟨_,hvalue,_⟩,⟨_,_,hcanonical,_⟩,⟨_,_,_,hsha,_⟩,⟨_,_,_,_,hhmac⟩,_⟩ := hw
    exact Go.Vector.ext (hid trivial) (hvalue trivial) (hcanonical trivial) (hsha trivial) (hhmac trivial)

/-- The strings of the case are what belongs to these canonical bytes. -/
def Holds (pf : Platform) (key : Bytes) (c : VectorCase) (b : Bytes) : Prop :=
  ∃ cs, b = Utf8.encode cs ∧ c.canonical = Utf16.encode cs ∧ c.sha = Utf16.encode (hexChars (pf.sha256 b)) ∧
    c.hmac = Utf16.encode (hexChars (pf.hmacSha256 key b))

theorem Holds.unique {pf : Platform} {key : Bytes} {a b : Bytes} (h : c.Holds pf key a) (h' : c.Holds pf key b) : a = b := by
  obtain ⟨cs,rfl,hcs,_⟩ := h
  obtain ⟨cs',rfl,hcs',_⟩ := h'
  rw [Utf16.encode_injective (hcs.symm.trans hcs')]

variable {pf : Node.Platform} {key : Bytes}

theorem WrittenAs.python (h : c.WrittenAs d) :
    pf.toPlatform.testPythonInteropVectors key (PyVal.reading.value d) = some () ↔
      ∃ b, pf.portableCanonicalBytes (PyVal.reading.value c.value) = .ok b ∧ c.Holds pf.toPlatform key b := by
  obtain ⟨es,rfl,hes⟩ := h
  simp only [fields,List.forall_mem_cons] at hes
  obtain ⟨_,hvalue,hcanonical,hsha,hhmac,_⟩ := hes
  simp only [Platform.testPythonInteropVectors,item_of_named hvalue,item_of_named hcanonical,item_of_named hsha,
    item_of_named hhmac,Option.bind_eq_bind,Option.bind_some,Option.bind_eq_some_iff,toOption_eq_some,
    Option.guard_eq_some',eqStr_reading,exists_const]
  refine exists_congr fun b => and_congr_right fun _ => ⟨?_,?_⟩
  · rintro ⟨cs,hcs,hc,hsha,hhmac⟩
    exact ⟨cs,Utf8.decode_eq_some hcs,hc,hsha,hhmac⟩
  · rintro ⟨cs,rfl,hc,hsha,hhmac⟩
    exact ⟨cs,Utf8.decode_encode cs,hc,hsha,hhmac⟩

theorem WrittenAs.node (h : c.WrittenAs d) : Node.verifyVector pf key (Node.reading.value d) = .ok () ↔
    ∃ b, Node.canonicalBytes pf (Node.reading.value c.value) = .ok b ∧ c.Holds pf.toPlatform key b := by
  obtain ⟨es,rfl,hes⟩ := h
  simp only [fields,List.forall_mem_cons] at hes
  obtain ⟨_,hvalue,hcanonical,hsha,hhmac,_⟩ := hes
  have string (u : List UInt16) : Node.reading.value (.str u) = .string u := rfl
  simp only [Node.verifyVector,get_of_named hvalue,field_of_named hcanonical,field_of_named hsha,field_of_named hhmac,
    ok_bind,bind_eq_ok,Node.throwUnless_eq_ok,string,Node.string_strictEq,JsVal.string.injEq,exists_const,
    Node.canonicalBytes_eq_ok]
  constructor
  · rintro ⟨s,hs,hc,hsha,hhmac⟩
    obtain ⟨cs,rfl⟩ := Node.scalar_canonical _ s hs
    exact ⟨_,⟨_,hs,rfl⟩,cs,Node.utf8_encode cs,hc,hsha,hhmac⟩
  · rintro ⟨_,⟨s,hs,rfl⟩,cs,hb,hc,hsha,hhmac⟩
    obtain ⟨cs',rfl⟩ := Node.scalar_canonical _ s hs
    cases Utf8.encode_injective ((Node.utf8_encode cs').symm.trans hb)
    exact ⟨_,hs,hc,hsha,hhmac⟩

/-- No string that is compared has an unpaired surrogate. -/
def Scalars (c : VectorCase) : Prop := Scalar c.canonical ∧ Scalar c.sha ∧ Scalar c.hmac

theorem Holds.scalars {pf : Platform} {b : Bytes} (h : c.Holds pf key b) : c.Scalars := by
  obtain ⟨cs,_,hc,hsha,hhmac⟩ := h
  exact ⟨⟨cs,hc⟩,⟨_,hsha⟩,⟨_,hhmac⟩⟩

theorem verifyVector_go {pf : Platform} : Go.verifyVector pf key c.go = .ok () ↔
    Go.canonical pf.nfc (Go.reading.value c.value) = .ok (Go.text c.canonical) ∧
    Utf8.encode (hexChars (pf.sha256 (Go.text c.canonical))) = Go.text c.sha ∧
    Utf8.encode (hexChars (pf.hmacSha256 key (Go.text c.canonical))) = Go.text c.hmac := by
  simp only [Go.verifyVector,bind_eq_ok,Go.mapError_eq_ok,failIf_eq_ok,not_not,exists_const]
  constructor
  · rintro ⟨_,hb,rfl,h⟩
    exact ⟨hb,h⟩
  · rintro ⟨hb,h⟩
    exact ⟨_,hb,rfl,h⟩

/-- Go reads unpaired surrogates as U+FFFD; without them it compares what the others compare. -/
theorem go_iff {pf : Platform} (hs : c.Scalars) : Go.verifyVector pf key c.go = .ok () ↔
    ∃ b, Go.canonical pf.nfc (Go.reading.value c.value) = .ok b ∧ c.Holds pf key b := by
  obtain ⟨⟨cs,hc⟩,⟨ss,hsha⟩,⟨ms,hhmac⟩⟩ := hs
  have text (s : List Char) : Go.text (Utf16.encode s) = Utf8.encode s := congrArg Utf8.encode (Utf16.decode_encode s)
  rw [verifyVector_go]
  simp only [Holds,hc,hsha,hhmac,text,Utf8.encode_injective.eq_iff,Utf16.encode_injective.eq_iff]
  constructor
  · rintro ⟨hb,hs,hm⟩
    exact ⟨_,hb,cs,rfl,rfl,hs.symm,hm.symm⟩
  · rintro ⟨_,hb,_,rfl,rfl,hs,hm⟩
    exact ⟨hb,hs.symm,hm.symm⟩

/-! What each language makes of a case, and what it takes for two of them to agree on it -/

def PassesPython (pf : Platform) (key : Bytes) (c : VectorCase) : Prop :=
  ∃ b, pf.portableCanonicalBytes (PyVal.reading.value c.value) = .ok b ∧ c.Holds pf key b

def PassesNode (pf : Node.Platform) (key : Bytes) (c : VectorCase) : Prop :=
  ∃ b, Node.canonicalBytes pf (Node.reading.value c.value) = .ok b ∧ c.Holds pf.toPlatform key b

def PassesGo (pf : Platform) (key : Bytes) (c : VectorCase) : Prop := Go.verifyVector pf key c.go = .ok ()

theorem python_iff_node : c.PassesPython pf.toPlatform key ↔ c.PassesNode pf key ∧ c.value.PlainIntegers := by
  simp only [PassesPython,PassesNode,ExecutionFinality.python_iff_node]
  constructor
  · rintro ⟨b,⟨hb,hi⟩,h⟩
    exact ⟨⟨b,hb,h⟩,hi⟩
  · rintro ⟨⟨b,hb,h⟩,hi⟩
    exact ⟨b,⟨hb,hi⟩,h⟩

theorem go_iff_of_python (hp : c.PassesPython pf.toPlatform key) : c.PassesGo pf.toPlatform key ↔ c.value.NoMinusZero := by
  obtain ⟨b,hb,h⟩ := hp
  rw [PassesGo,go_iff h.scalars]
  constructor
  · rintro ⟨b',hg,h'⟩
    cases h.unique h'
    exact noMinusZero_of_same hb hg
  · exact fun hz => ⟨b,go_of_python hb hz,h⟩

theorem python_iff_of_go (hg : c.PassesGo pf.toPlatform key) :
    c.PassesPython pf.toPlatform key ↔ c.value.NoMinusZero ∧ c.value.ScalarText ∧ c.Scalars := by
  constructor
  · intro hp
    have hz := (go_iff_of_python hp).mp hg
    obtain ⟨b,hb,h⟩ := hp
    exact ⟨hz,(safe_of_python hb).imp (fun _ _ => trivial) fun _ hu => hu,h.scalars⟩
  · rintro ⟨hz,ht,hs⟩
    obtain ⟨b,hb,h⟩ := (go_iff hs).mp hg
    exact ⟨b,python_of_go hb hz ht,h⟩

theorem go_iff_of_node (hn : c.PassesNode pf key) : c.PassesGo pf.toPlatform key ↔ c.value.PlainIntegers ∧ c.value.NoMinusZero := by
  constructor
  · intro hg
    obtain ⟨b,hb,h⟩ := hn
    obtain ⟨b',hgo,h'⟩ := (go_iff h.scalars).mp hg
    cases h.unique h'
    have hp : c.PassesPython pf.toPlatform key := ⟨b,python_of_go_node hgo hb,h⟩
    exact ⟨(python_iff_node.mp hp).2,(go_iff_of_python hp).mp hg⟩
  · exact fun ⟨hi,hz⟩ => (go_iff_of_python (python_iff_node.mpr ⟨hn,hi⟩)).mpr hz

theorem node_iff_of_go (hg : c.PassesGo pf.toPlatform key) :
    c.PassesNode pf key ↔ c.value.NoMinusZero ∧ c.value.ScalarText ∧ c.Scalars := by
  rw [← python_iff_of_go hg]
  constructor
  · exact fun hn => python_iff_node.mpr ⟨hn,((go_iff_of_node hn).mp hg).1⟩
  · exact fun hp => (python_iff_node.mp hp).1

end VectorCase

/-! A file of vectors -/

/-- The document is a vector file: the key in hexadecimal, and the cases. -/
def VectorFile (key : Bytes) (cs : List VectorCase) (d : JsonDoc) : Prop :=
  ∃ es xs, d = .obj es ∧ Named es "key_hex" (.str (Utf16.encode (hexChars key))) ∧ Named es "vectors" (.arr xs) ∧
    List.Forall₂ VectorCase.WrittenAs cs xs

/-- `test_python_interop_vectors` passes for every vector of the file. -/
def Platform.TestsVectors (pf : Platform) (s : List Char) : Prop :=
  ∃ data, pf.loads s = some data ∧ pf.vectorTests data = some ()

/-- `main.go` prints that it has verified this many of as many vectors. -/
def Go.VerifiesVectors (pf : Platform) (s : List Char) (n : Nat) : Prop :=
  ∃ bundle, Bundle.type.decodeText s = some bundle ∧ verifyVectors pf bundle =
    .ok (go "Go interop verified " ++ decimal n ++ go "/" ++ decimal n ++ go " vectors")

/-- So does `verify.mjs`. -/
def Node.VerifiesVectors (pf : Platform) (s : List Char) (n : Nat) : Prop :=
  ∃ data, parse s = some data ∧ verifyVectors pf data =
    .ok (js "Node interop verified " ++ decimal pf n ++ js "/" ++ decimal pf n ++ js " vectors")

section
variable {pf : Node.Platform} {key : Bytes} {cs : List VectorCase} {d : JsonDoc} {s : List Char}

theorem testsVectors_iff (h : JsonDoc.read s = some d) (hd : VectorFile key cs d) : pf.toPlatform.TestsVectors s ↔
    (∀ c ∈ cs, c.PassesPython pf.toPlatform key) ∧ pf.toPlatform.PrintsLiterals d := by
  obtain ⟨es,xs,rfl,hkey,hvectors,hcs⟩ := hd
  have hhex : PyVal.reading.value (.str (Utf16.encode (hexChars key))) = .str (PyStr.ofChars (hexChars key)) :=
    congrArg PyVal.str (ofChars_eq_codePoints _).symm
  have htests : pf.toPlatform.vectorTests (PyVal.reading.value (.obj es)) = some () ↔
      ∀ c ∈ cs, c.PassesPython pf.toPlatform key := by
    simp only [Platform.vectorTests,item_of_named hkey,item_of_named hvectors,hhex,Option.bind_eq_bind,Option.bind_some,
      fromHex_hexChars]
    exact parametrized_iff hcs (fun c x hc => ⟨_,hc.member (.head _)⟩) fun c x hc => hc.python
  simp only [Platform.TestsVectors,loads_eq_some h]
  constructor
  · rintro ⟨_,⟨hl,rfl⟩,ht⟩
    exact ⟨htests.mp ht,hl⟩
  · rintro ⟨ht,hl⟩
    exact ⟨_,⟨hl,rfl⟩,htests.mpr ht⟩

theorem node_verifiesVectors_iff (h : JsonDoc.read s = some d) (hd : VectorFile key cs d) :
    Node.VerifiesVectors pf s cs.length ↔ ∀ c ∈ cs, c.PassesNode pf key := by
  obtain ⟨es,xs,rfl,hkey,hvectors,hcs⟩ := hd
  have hparse : Node.parse s = some (Node.reading.value (.obj es)) := by rw [Node.parse,h,Option.map_some]
  have hhex : Node.bufferFromHex pf (Node.reading.value (.str (Utf16.encode (hexChars key)))) = .ok key :=
    congrArg Except.ok (hexPrefix_hexChars key).2
  have hall : (∀ v ∈ xs.map Node.reading.value, Node.verifyVector pf key v = .ok ()) ↔ ∀ c ∈ cs, c.PassesNode pf key :=
    List.forall_mem_map.trans (forall_mem_iff hcs fun c x hc => hc.node.symm).symm
  have hvs : Node.field (Node.reading.value (.obj es)) "vectors" = .array (xs.map Node.reading.value) := by
    rw [field_of_named hvectors,JsonReading.value_arr]
    rfl
  have hlen : cs.length = (xs.map Node.reading.value).length := by rw [List.length_map,hcs.length_eq]
  simp only [Node.VerifiesVectors,hparse,Option.some.injEq,exists_eq_left']
  rw [hlen,Node.verifyVectors_eq_ok (get_of_named hkey) hhex hvs,hall]

theorem VectorFile.decode (h : VectorFile key cs d) : ∃ bundle, Go.Bundle.type.decode d Go.Bundle.type.zero = some bundle ∧
    bundle.keyHex = Go.text (Utf16.encode (hexChars key)) ∧ bundle.vectors.elements = cs.map VectorCase.go := by
  obtain ⟨es,xs,rfl,hkey,hvectors,hcs⟩ := h
  have hdecode : List.Forall₂ (fun x v => ∀ u, Go.Vector.type.decode x u = some v) xs (cs.map VectorCase.go) := by
    rw [List.forall₂_map_right_iff]
    exact hcs.flip.imp fun _ _ hc => VectorCase.WrittenAs.decode hc
  obtain ⟨w,hw,hall⟩ := Go.StructType.exists_decode (T := Go.Bundle.type) (S := fun n v =>
    (n = "key_hex" → v.keyHex = Go.text (Utf16.encode (hexChars key))) ∧
      (n = "vectors" → v.vectors.elements = cs.map VectorCase.go)) (by decide)
    (by
      simp only [Go.Bundle.type,List.forall_mem_cons]
      refine ⟨⟨_,hkey,fun _ => ⟨_,rfl,?_⟩⟩,⟨_,hvectors,fun v => ?_⟩,by simp⟩
      · grind
      · obtain ⟨t,ht,hts⟩ := Go.StructType.exists_decodeSlice hdecode v.vectors
        refine ⟨{ v with vectors := t },by rw [ht]; rfl,?_⟩
        grind) Go.Bundle.type.zero
  simp only [Go.Bundle.type,List.forall_mem_cons] at hall
  exact ⟨w,hw,hall.1.1 trivial,hall.2.1.2 trivial⟩

theorem go_verifiesVectors_iff (h : JsonDoc.read s = some d) (hd : VectorFile key cs d) :
    Go.VerifiesVectors pf.toPlatform s cs.length ↔ ∀ c ∈ cs, c.PassesGo pf.toPlatform key := by
  obtain ⟨r,hr⟩ := readFirst_of_read h
  obtain ⟨bundle,hdecode,hkey,hvectors⟩ := hd.decode
  have htext : Go.Bundle.type.decodeText s = some bundle := by
    rw [Go.StructType.decodeText,hr]
    exact hdecode
  have hhex : Go.decodeString bundle.keyHex = .ok key := by
    rw [hkey,Go.text,Utf16.decode_encode]
    exact decodeString_eq_ok.mpr (hexPrefix_hexChars key)
  simp only [Go.VerifiesVectors,htext,Option.some.injEq,exists_eq_left']
  rw [Go.verifyVectors_eq_ok hhex (by rw [hvectors,List.length_map]),hvectors]
  exact List.forall_mem_map

/-- Which of the three languages pass a vector file when another one does -/
theorem vector_verdicts_agree (h : JsonDoc.read s = some d) (hd : VectorFile key cs d) :
    (pf.toPlatform.TestsVectors s ↔ Node.VerifiesVectors pf s cs.length ∧ (∀ c ∈ cs, c.value.PlainIntegers) ∧
      pf.toPlatform.PrintsLiterals d) ∧
    (pf.toPlatform.TestsVectors s → (Go.VerifiesVectors pf.toPlatform s cs.length ↔ ∀ c ∈ cs, c.value.NoMinusZero)) ∧
    (Go.VerifiesVectors pf.toPlatform s cs.length → (pf.toPlatform.TestsVectors s ↔
      (∀ c ∈ cs, c.value.NoMinusZero ∧ c.value.ScalarText ∧ c.Scalars) ∧ pf.toPlatform.PrintsLiterals d)) ∧
    (Node.VerifiesVectors pf s cs.length → (Go.VerifiesVectors pf.toPlatform s cs.length ↔
      ∀ c ∈ cs, c.value.PlainIntegers ∧ c.value.NoMinusZero)) ∧
    (Go.VerifiesVectors pf.toPlatform s cs.length → (Node.VerifiesVectors pf s cs.length ↔
      ∀ c ∈ cs, c.value.NoMinusZero ∧ c.value.ScalarText ∧ c.Scalars)) := by
  rw [testsVectors_iff h hd,node_verifiesVectors_iff h hd,go_verifiesVectors_iff h hd]
  refine ⟨?_,fun hp => ?_,fun hg => ?_,fun hn => ?_,fun hg => ?_⟩
  · rw [← and_assoc,← forall₂_and]
    exact and_congr_left' (forall₂_congr fun c _ => VectorCase.python_iff_node)
  · exact forall₂_congr fun c hc => VectorCase.go_iff_of_python (hp.1 c hc)
  · exact and_congr_left' (forall₂_congr fun c hc => VectorCase.python_iff_of_go (hg c hc))
  · exact forall₂_congr fun c hc => VectorCase.go_iff_of_node (hn c hc)
  · exact forall₂_congr fun c hc => VectorCase.node_iff_of_go (hg c hc)

end

/-- A file with its members in another order, and with one more -/
def sampleVectorText : List Char := ("\x7b\"vectors\":[\x7b\"value\":\"\\u212a\",\"id\":\"v01\",\"note\":-0,\"canonical_utf8\":\"\\\"K\\\"\"," ++
  "\"sha256\":\"224b22\",\"hmac_sha256\":\"01224b22\"\x7d],\"key_hex\":\"01\"\x7d").toList

def sampleVector : VectorCase :=
  ⟨js "v01",.str [0x212a],js "\"K\"",js "224b22",js "01224b22"⟩

def sampleVectorDoc : JsonDoc :=
  .obj [(js "vectors",.arr [.obj [(js "value",.str [0x212a]),(js "id",.str (js "v01")),(js "note",.num .minusZero),
      (js "canonical_utf8",.str (js "\"K\"")),(js "sha256",.str (js "224b22")),(js "hmac_sha256",.str (js "01224b22"))]]),
    (js "key_hex",.str (js "01"))]

set_option maxRecDepth 4000 in
theorem read_sampleVectorText : JsonDoc.read sampleVectorText = some sampleVectorDoc := rfl

theorem sampleVectorDoc_file : VectorFile [1] [sampleVector] sampleVectorDoc := by
  refine ⟨_,_,rfl,rfl,rfl,.cons ⟨_,rfl,?_⟩ .nil⟩
  simp only [VectorCase.fields,List.forall_mem_cons]
  exact ⟨rfl,rfl,rfl,rfl,rfl,by simp⟩

theorem sampleVectorDoc_literals : samplePlatform.PrintsLiterals sampleVectorDoc := by
  intro n hn _
  have hz : n = .minusZero := List.mem_singleton.mp hn
  exact hz ▸ Platform.prints_of_lt (by decide)

theorem vector_verdicts_agree_sample : samplePlatform.TestsVectors sampleVectorText ∧
    Go.VerifiesVectors samplePlatform sampleVectorText 1 ∧ Node.VerifiesVectors Node.samplePlatform sampleVectorText 1 := by
  have hpasses : ∀ c ∈ [sampleVector], c.PassesPython Node.samplePlatform.toPlatform [1] := by
    rintro _ (_ | ⟨_,⟨⟩⟩)
    exact ⟨_,rfl,_,rfl,rfl,rfl,rfl⟩
  have hpython := (testsVectors_iff read_sampleVectorText sampleVectorDoc_file).mpr
    ⟨hpasses,sampleVectorDoc_literals⟩
  obtain ⟨hnode,hgo,_⟩ := @vector_verdicts_agree Node.samplePlatform [1] [sampleVector] sampleVectorDoc
    sampleVectorText read_sampleVectorText sampleVectorDoc_file
  refine ⟨hpython,(hgo hpython).mpr fun c hc => ?_,(hnode.mp hpython).1⟩
  cases List.mem_singleton.mp hc
  exact .str trivial

end ExecutionFinality
