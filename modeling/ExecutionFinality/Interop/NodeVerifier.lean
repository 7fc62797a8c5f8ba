import ExecutionFinality.Interop.NodeCanonical

/-! `finality_verify.mjs`: the portable verifier in Node. -/
namespace ExecutionFinality
open Utf8 (Bytes)
open KeyedEntries

namespace Node

/-! The operators of the language, on what `JSON.parse` returns. -/

/-- `a === b`; two objects or arrays of a document are never the same one. -/
def strictEq : JsVal → JsVal → Bool
  | .undefined, .undefined | .null, .null => true
  | .bool a, .bool b => a = b
  | .number x, .number y => Binary64.eq x y
  | .string s, .string t => s = t
  | _, _ => false

mutual
/-- `String(v)`; a property `toString` hides the inherited method, and is not callable. -/
def toStr (pf : Platform) : JsVal → Except Err JsStr
  | .undefined => .ok (js "undefined")
  | .null => .ok (js "null")
  | .bool b => .ok (js (if b then "true" else "false"))
  | .number x => .ok (pf.numberToString x)
  | .string s => .ok s
  | .array xs => do return (js ",").intercalate (← joined pf xs)
  | .object es => do
    failIf (js "toString" ∈ keys es) .typeError
    return js "[object Object]"

/-- The parts of `Array.prototype.join` -/
def joined (pf : Platform) : List JsVal → Except Err (List JsStr)
  | [] => .ok []
  | .undefined :: xs | .null :: xs => do return [] :: (← joined pf xs)
  | x :: xs => do return (← toStr pf x) :: (← joined pf xs)
end

def toPrimitive (pf : Platform) : JsVal → Except Err JsVal
  | .array xs => do return .string (← toStr pf (.array xs))
  | .object es => do return .string (← toStr pf (.object es))
  | v => .ok v

/-- `Number(v)` of a primitive value -/
def toNumber (pf : Platform) : JsVal → Binary64
  | .null => .finite 0
  | .bool b => .finite (if b then 1 else 0)
  | .number x => x
  | .string s => pf.stringToNumber s
  | _ => .nan

/-- `a + b` -/
def add (pf : Platform) (a b : JsVal) : Except Err JsVal := do
  match ← toPrimitive pf a,← toPrimitive pf b with
  | .string s, y => return .string (s ++ (← toStr pf y))
  | x, .string t => return .string ((← toStr pf x) ++ t)
  | x, y => return .number (Binary64.add (toNumber pf x) (toNumber pf y))

/-- `a - b` -/
def sub (pf : Platform) (a b : JsVal) : Except Err JsVal := do
  return .number (Binary64.sub (toNumber pf (← toPrimitive pf a)) (toNumber pf (← toPrimitive pf b)))

/-- `a < b`; strings compare by code units. -/
def less (pf : Platform) (a b : JsVal) : Except Err Bool := do
  match ← toPrimitive pf a,← toPrimitive pf b with
  | .string s, .string t => return s < t
  | x, y => return Binary64.lt (toNumber pf x) (toNumber pf y)

/-- `a > b` -/
def greater (pf : Platform) (a b : JsVal) : Except Err Bool := less pf b a

/-- An own property of an object; no inherited one has a name that the verifier reads. -/
def field (v : JsVal) (key : String) : JsVal :=
  match v with
  | .object es => (es.lookup (js key)).getD .undefined
  | _ => .undefined

/-- `v.key`, for a key that strings and arrays do not have -/
def get (v : JsVal) (key : String) : Except Err JsVal :=
  match v with
  | .undefined | .null => .error .typeError
  | v => .ok (field v key)

/-- `v.length` -/
def length : JsVal → Except Err JsVal
  | .undefined | .null => .error .typeError
  | .string s => .ok (.number (.finite (s.length : Int)))
  | .array xs => .ok (.number (.finite (xs.length : Int)))
  | v => .ok (field v "length")

/-- `v[i]` -/
def item (v : JsVal) (i : Nat) : Except Err JsVal :=
  match v with
  | .undefined | .null => .error .typeError
  | .string s => .ok ((s[i]?.map fun u => .string [u]).getD .undefined)
  | .array xs => .ok (xs[i]?.getD .undefined)
  | v => .ok (field v (String.ofList (Nat.toDigits 10 i)))

/-- `v.includes(x)` -/
def includes (pf : Platform) (v x : JsVal) : Except Err Bool :=
  match v with
  | .array xs => .ok (xs.any (strictEq x))
  | .string s => do return (← toStr pf x) <:+: s
  | _ => .error .typeError

/-- `{...v}` -/
def spread : JsVal → List (JsStr × JsVal)
  | .object es => es
  | .array xs => xs.zipIdx.map fun (x,i) => (js (String.ofList (Nat.toDigits 10 i)),x)
  | .string s => s.zipIdx.map fun (u,i) => (js (String.ofList (Nat.toDigits 10 i)),.string [u])
  | _ => []

/-- The digit that a code unit is read as; only its low eight bits are looked up. -/
def hexDigit? (u : UInt16) : Option Nat :=
  let b := u.toNat % 256
  if 48 ≤ b ∧ b ≤ 57 then some (b - 48)
  else if 97 ≤ b ∧ b ≤ 102 then some (b - 87)
  else if 65 ≤ b ∧ b ≤ 70 then some (b - 55)
  else none

/-- The bytes of a string in hexadecimal, up to the first pair that is none -/
def hexPrefix : JsStr → Bytes
  | u :: v :: s =>
    match hexDigit? u,hexDigit? v with
    | some a,some b => UInt8.ofNat (16 * a + b) :: hexPrefix s
    | _,_ => []
  | _ => []

/-- `Buffer.from(v, 'hex')` -/
def bufferFromHex (pf : Platform) : JsVal → Except Err Bytes
  | .string s => .ok (hexPrefix s)
  | .array xs => pf.bufferFrom (.array xs)
  | .object es => pf.bufferFrom (.object es)
  | _ => .error .typeError

def sha (pf : Platform) (v : JsVal) : Except Err JsStr := do
  return Utf16.encode (hexChars (pf.sha256 (← canonicalBytes pf v)))

def mac (pf : Platform) (v : JsVal) (key : Bytes) : Except Err JsStr := do
  return Utf16.encode (hexChars (pf.hmacSha256 key (← canonicalBytes pf v)))

def eq (pf : Platform) (a b : JsVal) (msg : String) : Except Err Unit :=
  if strictEq a b then .ok ()
  else do .error (.error (js msg ++ js ": " ++ (← toStr pf a) ++ js " != " ++ (← toStr pf b)))

def unsigned (v : JsVal) : List (JsStr × JsVal) := (spread v).filter fun e => e.1 ≠ js "signature"

/-- `rebuilt` -/
def rebuilt (c ctx : JsVal) (payloadDigest : JsStr) : List (JsStr × JsVal) :=
  [(js "schema",.string (js "finality-hcad/v1")),(js "act_id",field c "act_id"),(js "act_class",field c "act_class"),
    (js "effect_class",field c "effect_class"),(js "source",field c "source"),
    (js "destination",field c "destination"),(js "purpose",field c "purpose"),
    (js "jurisdiction",field c "jurisdiction"),(js "policy_epoch",field c "policy_epoch"),
    (js "nonce",field c "nonce"),(js "issued_at_ns",field c "issued_at_ns"),
    (js "freshness_ns",field c "freshness_ns"),(js "sink_id",field ctx "sink_id"),
    (js "boundary_id",field ctx "boundary_id"),(js "scope",field c "scope"),
    (js "payload_digest",.string payloadDigest),
    (js "runtime_evidence_digest",field c "runtime_evidence_digest")]

def transitionCore (t : JsVal) (candidateDigest : JsStr) : List (JsStr × JsVal) :=
  [(js "nonce",field t "nonce"),(js "source",field t "source"),(js "before_version",field t "before_version"),
    (js "after_version",field t "after_version"),(js "quota_before",field t "quota_before"),
    (js "quota_after",field t "quota_after"),(js "budget_before",field t "budget_before"),
    (js "budget_after",field t "budget_after"),(js "policy_epoch",field t "policy_epoch"),
    (js "candidate_digest",.string candidateDigest)]

/-! The module body in its order, cut where a record is done with. -/

/-- Candidate and descriptor; returns `candidateDigest`. -/
def checkDescriptor (pf : Platform) (c h e cap ctx : JsVal) : Except Err JsStr := do
  failIf (strictEq (← get c "status") (.string (js "NON_EFFECTIVE")) = false)
    (.error (js "candidate is not non-effective"))
  let candidateDigest ← sha pf c
  eq pf (.string candidateDigest) (← get cap "candidate_digest") "candidate digest/capability"
  eq pf (.string candidateDigest) (← get e "candidate_digest") "candidate digest/evidence"
  let payloadDigest ← sha pf (← get c "payload")
  eq pf (.string payloadDigest) (← get h "payload_digest") "payload digest"
  let _ ← get ctx "sink_id"
  let descriptorDigest ← sha pf (.object (rebuilt c ctx payloadDigest))
  eq pf (.string descriptorDigest) (← get cap "descriptor_digest") "descriptor digest/capability"
  eq pf (.string descriptorDigest) (← get e "descriptor_digest") "descriptor digest/evidence"
  eq pf (.string (← sha pf h)) (.string descriptorDigest) "provided HCAD"
  return candidateDigest

def checkTransition (pf : Platform) (candidateDigest : JsStr) (t e cap : JsVal) : Except Err Unit := do
  let _ ← get t "nonce"
  eq pf (.string (← sha pf (.object (transitionCore t candidateDigest)))) (← get t "transition_id") "transition id"
  failIf (strictEq (field t "after_version") (← add pf (field t "before_version") (.number (.finite 1))) = false)
    (.error (js "invalid protected state transition"))
  failIf (strictEq (field t "quota_after") (← sub pf (field t "quota_before") (.number (.finite 1))) = false)
    (.error (js "invalid protected state transition"))
  failIf ((← less pf (field t "budget_after") (field t "budget_before")) = false)
    (.error (js "invalid protected state transition"))
  eq pf (field t "transition_id") (← get cap "transition_id") "transition cap"
  eq pf (field t "transition_id") (← get e "transition_id") "transition evidence"

def checkEvidence (pf : Platform) (key : Bytes) (e : JsVal) : Except Err Unit := do
  let evidenceUnsigned := unsigned e
  eq pf (.string (← mac pf (.object evidenceUnsigned) key)) (← get e "signature") "evidence HMAC"
  let evidenceCore := evidenceUnsigned.filter fun f => f.1 ≠ js "evidence_id"
  eq pf (.string (← sha pf (.object evidenceCore))) (← get e "evidence_id") "evidence id"
  failIf (strictEq (← get e "decision") (.string (js "ALLOW")) = false) (.error (js "evidence is not ALLOW"))

def checkCapability (pf : Platform) (key : Bytes) (c e cap ctx : JsVal) : Except Err Unit := do
  let capUnsigned := unsigned cap
  eq pf (.string (← mac pf (.object capUnsigned) key)) (← get cap "signature") "capability HMAC"
  let capCore := capUnsigned.filter fun f => f.1 ≠ js "capability_id"
  eq pf (.string (← sha pf (.object capCore))) (← get cap "capability_id") "capability id"
  eq pf (← get cap "sink_id") (← get ctx "sink_id") "sink binding"
  eq pf (← get cap "boundary_id") (← get ctx "boundary_id") "boundary binding"
  eq pf (← get cap "policy_epoch") (← get ctx "policy_epoch") "policy epoch"
  eq pf (← get cap "nonce") (← get c "nonce") "nonce"
  eq pf (← get cap "authority_id") (← get e "authority_id") "authority"

/-- `cap.scope.every((v,i)=>v===c.scope[i])`, from index `i` on -/
def everyEqual (scope : JsVal) : Nat → List JsVal → Except Err Bool
  | _, [] => .ok true
  | i, v :: vs => do
    if strictEq v (← item scope i) then everyEqual scope (i + 1) vs else return false

/-- `cap.scope.every(s=>ctx.supported_scopes.includes(s))` -/
def everySupported (pf : Platform) (ctx : JsVal) : List JsVal → Except Err Bool
  | [] => .ok true
  | s :: ss => do
    if ← includes pf (← get ctx "supported_scopes") s then everySupported pf ctx ss else return false

/-- What `every` runs over; no other value has the method. -/
def elements : JsVal → Except Err (List JsVal)
  | .array xs => .ok xs
  | _ => .error .typeError

def checkScopes (pf : Platform) (c cap ctx : JsVal) : Except Err Unit := do
  let capScope ← get cap "scope"
  let scope ← get c "scope"
  failIf (strictEq (← length capScope) (← length scope) = false) (.error (js "scope mismatch"))
  failIf ((← everyEqual scope 0 (← elements capScope)) = false) (.error (js "scope mismatch"))
  failIf ((← everySupported pf ctx (← elements capScope)) = false) (.error (js "sink unsupported scope"))

def checkEffect (pf : Platform) (c cap ctx : JsVal) : Except Err Unit := do
  failIf (strictEq (← get c "effect_class") (← get ctx "effect_class") = false)
    (.error (js "effect class mismatch"))
  let expiresAtNs ← get cap "expires_at_ns"
  failIf ((← greater pf expiresAtNs (← add pf (← get c "issued_at_ns") (← get c "freshness_ns"))) = true)
    (.error (js "capability outlives candidate"))

/-- The module body on a parsed bundle; the result is what it prints. -/
def finalityVerify (pf : Platform) (d : JsVal) : Except Err JsStr := do
  let key ← bufferFromHex pf (← get d "authority_key_hex")
  let c := field d "candidate"
  let h := field d "hcad"
  let t := field d "state_transition"
  let e := field d "validation_evidence"
  let cap := field d "capability"
  let ctx := field d "sink_context"
  let candidateDigest ← checkDescriptor pf c h e cap ctx
  checkTransition pf candidateDigest t e cap
  checkEvidence pf key e
  checkCapability pf key c e cap ctx
  checkScopes pf c cap ctx
  checkEffect pf c cap ctx
  return js "Node portable Finality Sink verification: PASS"

/-! What a bundle has to fulfil to pass: the properties that are hashed by name have to
be there, and the records have to be linked. -/

/-- A missing property, read as null -/
def orNull : JsVal → JsVal
  | .undefined => .null
  | v => v

def complete (es : List (JsStr × JsVal)) : List (JsStr × JsVal) := es.map fun e => (e.1,orNull e.2)

structure Present (d : JsVal) : Prop where
  payload : field (field d "candidate") "payload" ≠ .undefined
  descriptor : ∀ e ∈ rebuilt (field d "candidate") (field d "sink_context") [], e.2 ≠ .undefined
  transition : ∀ e ∈ transitionCore (field d "state_transition") [], e.2 ≠ .undefined

structure LinkedDescriptor (pf : Platform) (c h e cap ctx : JsVal) (cd : List Char) : Prop where
  status : field c "status" = .string (js "NON_EFFECTIVE")
  candidateDigest : sha pf c = .ok (Utf16.encode cd)
  capCandidate : field cap "candidate_digest" = .string (Utf16.encode cd)
  evidenceCandidate : field e "candidate_digest" = .string (Utf16.encode cd)
  descriptor : ∃ pd dd, sha pf (orNull (field c "payload")) = .ok (Utf16.encode pd) ∧
    field h "payload_digest" = .string (Utf16.encode pd) ∧
    sha pf (.object (complete (rebuilt c ctx (Utf16.encode pd)))) = .ok (Utf16.encode dd) ∧
    field cap "descriptor_digest" = .string (Utf16.encode dd) ∧
    field e "descriptor_digest" = .string (Utf16.encode dd) ∧ sha pf h = .ok (Utf16.encode dd)

structure LinkedTransition (pf : Platform) (cd : List Char) (t e cap : JsVal) : Prop where
  transitionId : ∃ tid, sha pf (.object (complete (transitionCore t (Utf16.encode cd)))) = .ok (Utf16.encode tid) ∧
    field t "transition_id" = .string (Utf16.encode tid) ∧ field cap "transition_id" = .string (Utf16.encode tid) ∧
    field e "transition_id" = .string (Utf16.encode tid)
  version : ∃ x, add pf (field t "before_version") (.number (.finite 1)) = .ok x ∧
    strictEq (field t "after_version") x = true
  quota : ∃ x, sub pf (field t "quota_before") (.number (.finite 1)) = .ok x ∧
    strictEq (field t "quota_after") x = true
  budget : less pf (field t "budget_after") (field t "budget_before") = .ok true

structure LinkedEvidence (pf : Platform) (key : Bytes) (e : JsVal) : Prop where
  signature : ∃ m, mac pf (.object (unsigned e)) key = .ok (Utf16.encode m) ∧
    field e "signature" = .string (Utf16.encode m)
  evidenceId : ∃ i, sha pf (.object ((unsigned e).filter fun f => f.1 ≠ js "evidence_id")) = .ok (Utf16.encode i) ∧
    field e "evidence_id" = .string (Utf16.encode i)
  decision : field e "decision" = .string (js "ALLOW")

structure LinkedCapability (pf : Platform) (key : Bytes) (c e cap ctx : JsVal) : Prop where
  signature : ∃ m, mac pf (.object (unsigned cap)) key = .ok (Utf16.encode m) ∧
    field cap "signature" = .string (Utf16.encode m)
  capabilityId : ∃ i, sha pf (.object ((unsigned cap).filter fun f => f.1 ≠ js "capability_id")) =
    .ok (Utf16.encode i) ∧ field cap "capability_id" = .string (Utf16.encode i)
  sinkId : strictEq (field cap "sink_id") (field ctx "sink_id") = true
  boundaryId : strictEq (field cap "boundary_id") (field ctx "boundary_id") = true
  policyEpoch : strictEq (field cap "policy_epoch") (field ctx "policy_epoch") = true
  nonce : strictEq (field cap "nonce") (field c "nonce") = true
  authorityId : strictEq (field cap "authority_id") (field e "authority_id") = true

structure LinkedScopes (pf : Platform) (c cap ctx : JsVal) : Prop where
  scopes : ∃ xs : List JsVal, field cap "scope" = .array xs ∧
    (∃ n, length (field c "scope") = .ok n ∧ strictEq (.number (.finite (xs.length : Int))) n = true) ∧
    everyEqual (field c "scope") 0 xs = .ok true ∧ everySupported pf ctx xs = .ok true

structure LinkedEffect (pf : Platform) (c cap ctx : JsVal) : Prop where
  effectClass : strictEq (field c "effect_class") (field ctx "effect_class") = true
  outlives : ∃ x, add pf (field c "issued_at_ns") (field c "freshness_ns") = .ok x ∧
    greater pf (field cap "expires_at_ns") x = .ok false

/-- The records of the bundle belong together, as JavaScript compares them. -/
def Linked (pf : Platform) (d : JsVal) : Prop :=
  ∃ key cd, bufferFromHex pf (field d "authority_key_hex") = .ok key ∧
    LinkedDescriptor pf (field d "candidate") (field d "hcad") (field d "validation_evidence")
      (field d "capability") (field d "sink_context") cd ∧
    LinkedTransition pf cd (field d "state_transition") (field d "validation_evidence") (field d "capability") ∧
    LinkedEvidence pf key (field d "validation_evidence") ∧
    LinkedCapability pf key (field d "candidate") (field d "validation_evidence") (field d "capability")
      (field d "sink_context") ∧
    LinkedScopes pf (field d "candidate") (field d "capability") (field d "sink_context") ∧
    LinkedEffect pf (field d "candidate") (field d "capability") (field d "sink_context")

variable {pf : Platform} {v x : JsVal} {key : String}

/-- Reading a property does not throw. -/
def Readable (v : JsVal) : Prop := v ≠ .undefined ∧ v ≠ .null

theorem get_eq_ok : get v key = .ok x ↔ Readable v ∧ field v key = x := by
  cases v <;> simp [get,Readable]

theorem readable_of_field (h : field v key = x) (hx : x ≠ .undefined) : Readable v := by
  refine ⟨?_,?_⟩ <;> rintro rfl <;> exact hx h.symm

theorem strictEq_string {s : JsStr} : strictEq v (.string s) = true ↔ v = .string s := by
  cases v <;> simp [strictEq]

theorem string_strictEq {s : JsStr} : strictEq (.string s) v = true ↔ v = .string s := by
  cases v <;> simp [strictEq,eq_comm]

theorem eq_eq_ok {a b : JsVal} {msg : String} {u : Unit} : eq pf a b msg = .ok u ↔ strictEq a b = true := by
  unfold eq
  split
  · rename_i h
    exact iff_of_true rfl h
  · rename_i h
    refine iff_of_false (fun h => ?_) h
    simp only [CheckChains.bind_eq_ok,reduceCtorEq,and_false,exists_false] at h

theorem canonicalBytes_undefined {b : Bytes} : canonicalBytes pf .undefined ≠ .ok b := (nomatch ·)

/-- A digest exists only when every property is there. -/
theorem canonicalBytes_object {es : List (JsStr × JsVal)} {b : Bytes} :
    canonicalBytes pf (.object es) = .ok b ↔
      (∀ e ∈ es, e.2 ≠ .undefined) ∧ canonicalBytes pf (.object (complete es)) = .ok b := by
  have present (h : ∀ e ∈ es, e.2 ≠ .undefined) : complete es = es := by
    refine (List.map_congr_left fun e he => ?_).trans es.map_id
    obtain ⟨k,v⟩ := e
    cases v with
    | undefined => exact absurd rfl (h _ he)
    | _ => rfl
  constructor
  · intro h
    obtain ⟨s,hs,_⟩ := canonicalBytes_eq_ok.mp h
    obtain ⟨ms,hms,_⟩ := canonical_object.mp hs
    have hne : ∀ e ∈ es, e.2 ≠ .undefined := by
      intro e he hu
      obtain ⟨m,_,_,hm⟩ := forall₂_of_mem_right hms.flip he
      rw [hu] at hm
      cases hm
    exact ⟨hne,(present hne).symm ▸ h⟩
  · rintro ⟨hne,h⟩
    exact present hne ▸ h

theorem sha_eq_ok {s : JsStr} : sha pf v = .ok s ↔
    ∃ b, canonicalBytes pf v = .ok b ∧ Utf16.encode (hexChars (pf.sha256 b)) = s := by
  simp only [sha,CheckChains.bind_eq_ok,CheckChains.pure_eq_ok]

theorem mac_eq_ok {k : Bytes} {s : JsStr} : mac pf v k = .ok s ↔
    ∃ b, canonicalBytes pf v = .ok b ∧ Utf16.encode (hexChars (pf.hmacSha256 k b)) = s := by
  simp only [mac,CheckChains.bind_eq_ok,CheckChains.pure_eq_ok]

theorem sha_object {es : List (JsStr × JsVal)} {s : JsStr} : sha pf (.object es) = .ok s ↔
    (∀ e ∈ es, e.2 ≠ .undefined) ∧ sha pf (.object (complete es)) = .ok s := by
  simp only [sha_eq_ok]
  rw [← exists_and_left]
  exact exists_congr fun b => by rw [canonicalBytes_object,and_assoc]

theorem sha_orNull {s : JsStr} : sha pf v = .ok s ↔ v ≠ .undefined ∧ sha pf (orNull v) = .ok s := by
  cases v with
  | undefined => simp [sha_eq_ok,canonicalBytes_undefined]
  | _ => simp [orNull]

theorem sha_text {s : JsStr} (h : sha pf v = .ok s) : ∃ cs, s = Utf16.encode cs := by
  obtain ⟨b,_,rfl⟩ := sha_eq_ok.mp h
  exact ⟨_,rfl⟩

theorem mac_text {k : Bytes} {s : JsStr} (h : mac pf v k = .ok s) : ∃ cs, s = Utf16.encode cs := by
  obtain ⟨b,_,rfl⟩ := mac_eq_ok.mp h
  exact ⟨_,rfl⟩

variable {c h t e cap ctx : JsVal} {cd : List Char} {k : Bytes} {u : Unit}

theorem rebuilt_present (pd : JsStr) :
    (∀ e ∈ rebuilt c ctx pd, e.2 ≠ .undefined) ↔ ∀ e ∈ rebuilt c ctx [], e.2 ≠ .undefined := by
  simp [rebuilt]

theorem transitionCore_present (cd : JsStr) :
    (∀ e ∈ transitionCore t cd, e.2 ≠ .undefined) ↔ ∀ e ∈ transitionCore t [], e.2 ≠ .undefined := by
  simp [transitionCore]

theorem checkDescriptor_eq_ok {s : JsStr} : checkDescriptor pf c h e cap ctx = .ok s ↔
    field c "payload" ≠ .undefined ∧ (∀ e ∈ rebuilt c ctx [], e.2 ≠ .undefined) ∧
      ∃ cd, LinkedDescriptor pf c h e cap ctx cd ∧ s = Utf16.encode cd := by
  simp only [checkDescriptor,CheckChains.bind_eq_ok,CheckChains.failIf_eq_ok,CheckChains.pure_eq_ok,eq_eq_ok,
    exists_const,string_strictEq,strictEq_string,Bool.not_eq_false,get_eq_ok,and_assoc,exists_and_left,
    exists_eq_left',JsVal.string.injEq]
  constructor
  · rintro ⟨_,hstatus,cd,hcd,_,hcap,_,he,_,pd,hpd,_,hh,_,dd,hdd,_,hcap',_,he',_,hh',rfl,rfl⟩
    obtain ⟨hpayload,hpd'⟩ := sha_orNull.mp hpd
    obtain ⟨hctx,hdd'⟩ := sha_object.mp hdd
    have hpresent := (rebuilt_present _).mp hctx
    obtain ⟨cd,rfl⟩ := sha_text hcd
    obtain ⟨pd,rfl⟩ := sha_text hpd
    obtain ⟨dd,rfl⟩ := sha_text hdd
    exact ⟨hpayload,hpresent,cd,⟨hstatus,hcd,hcap,he,pd,dd,hpd',hh,hdd',hcap',he',hh'⟩,rfl⟩
  · rintro ⟨hpayload,hpresent,cd,⟨hstatus,hcd,hcap,he,pd,dd,hpd,hh,hdd,hcap',he',hh'⟩,rfl⟩
    have hc := readable_of_field hstatus (by simp)
    have hctx : Readable ctx := readable_of_field rfl (hpresent (js "sink_id",field ctx "sink_id") (by simp [rebuilt]))
    exact ⟨hc,hstatus,_,hcd,readable_of_field hcap (by simp),hcap,readable_of_field he (by simp),he,hc,_,
      sha_orNull.mpr ⟨hpayload,hpd⟩,readable_of_field hh (by simp),hh,hctx,_,
      sha_object.mpr ⟨(rebuilt_present _).mpr hpresent,hdd⟩,readable_of_field hcap (by simp),hcap',
      readable_of_field he (by simp),he',_,hh',rfl,rfl⟩

theorem checkTransition_eq_ok : checkTransition pf (Utf16.encode cd) t e cap = .ok u ↔
    (∀ e ∈ transitionCore t [], e.2 ≠ .undefined) ∧ LinkedTransition pf cd t e cap := by
  simp only [checkTransition,CheckChains.bind_eq_ok,CheckChains.failIf_eq_ok,eq_eq_ok,exists_const,string_strictEq,
    Bool.not_eq_false,get_eq_ok,and_assoc,exists_and_left,exists_eq_left']
  constructor
  · rintro ⟨_,tid,hid,_,ht,x,hx,hversion,y,hy,hquota,_,hbudget,rfl,_,hcap,_,he⟩
    obtain ⟨hpresent,hid'⟩ := sha_object.mp hid
    obtain ⟨tid,rfl⟩ := sha_text hid
    rw [ht,string_strictEq] at hcap he
    exact ⟨(transitionCore_present _).mp hpresent,⟨tid,hid',ht,hcap,he⟩,⟨x,hx,hversion⟩,⟨y,hy,hquota⟩,hbudget⟩
  · rintro ⟨hpresent,⟨tid,hid,ht,hcap,he⟩,⟨x,hx,hversion⟩,⟨y,hy,hquota⟩,hbudget⟩
    have hread := readable_of_field ht (by simp)
    refine ⟨hread,_,sha_object.mpr ⟨(transitionCore_present _).mpr hpresent,hid⟩,hread,ht,x,hx,hversion,y,hy,
      hquota,true,hbudget,rfl,readable_of_field hcap (by simp),?_,readable_of_field he (by simp),?_⟩
    · rw [ht,string_strictEq,hcap]
    · rw [ht,string_strictEq,he]

theorem checkEvidence_eq_ok : checkEvidence pf k e = .ok u ↔ LinkedEvidence pf k e := by
  simp only [checkEvidence,CheckChains.bind_eq_ok,CheckChains.failIf_eq_ok,eq_eq_ok,exists_const,string_strictEq,
    strictEq_string,Bool.not_eq_false,get_eq_ok,and_assoc,exists_and_left,exists_eq_left']
  constructor
  · rintro ⟨m,hm,_,hsignature,i,hi,_,hid,_,hdecision⟩
    obtain ⟨m,rfl⟩ := mac_text hm
    obtain ⟨i,rfl⟩ := sha_text hi
    exact ⟨⟨m,hm,hsignature⟩,⟨i,hi,hid⟩,hdecision⟩
  · rintro ⟨⟨m,hm,hsignature⟩,⟨i,hi,hid⟩,hdecision⟩
    have hread := readable_of_field hdecision (by simp)
    exact ⟨_,hm,hread,hsignature,_,hi,hread,hid,hread,hdecision⟩

theorem checkCapability_eq_ok (hc : Readable c) (he : Readable e) (hctx : Readable ctx) :
    checkCapability pf k c e cap ctx = .ok u ↔ LinkedCapability pf k c e cap ctx := by
  simp only [checkCapability,CheckChains.bind_eq_ok,eq_eq_ok,exists_const,string_strictEq,get_eq_ok,and_assoc,
    exists_and_left,exists_eq_left',hc,he,hctx,true_and]
  constructor
  · rintro ⟨m,hm,_,hsignature,i,hi,_,hid,_,hsink,_,hboundary,_,hepoch,_,hnonce,_,hauthority⟩
    obtain ⟨m,rfl⟩ := mac_text hm
    obtain ⟨i,rfl⟩ := sha_text hi
    exact ⟨⟨m,hm,hsignature⟩,⟨i,hi,hid⟩,hsink,hboundary,hepoch,hnonce,hauthority⟩
  · rintro ⟨⟨m,hm,hsignature⟩,⟨i,hi,hid⟩,hsink,hboundary,hepoch,hnonce,hauthority⟩
    have hread := readable_of_field hsignature (by simp)
    exact ⟨_,hm,hread,hsignature,_,hi,hread,hid,hread,hsink,hread,hboundary,hread,hepoch,hread,hnonce,hread,hauthority⟩

theorem elements_eq_ok {xs : List JsVal} : elements v = .ok xs ↔ v = .array xs := by
  cases v <;> simp [elements]

theorem checkScopes_eq_ok (hc : Readable c) : checkScopes pf c cap ctx = .ok u ↔ LinkedScopes pf c cap ctx := by
  simp only [checkScopes,CheckChains.bind_eq_ok,CheckChains.failIf_eq_ok,exists_const,Bool.not_eq_false,get_eq_ok,
    and_assoc,exists_and_left,exists_eq_left',hc,true_and,elements_eq_ok,exists_eq_right]
  constructor
  · rintro ⟨_,n,hn,m,hm,hnm,xs,hxs,_,hequal,rfl,ys,hys,hsupported⟩
    rw [hxs] at hn
    cases hxs.symm.trans hys
    cases hn
    exact ⟨xs,hxs,⟨m,hm,hnm⟩,hequal,hsupported⟩
  · rintro ⟨xs,hxs,⟨m,hm,hnm⟩,hequal,hsupported⟩
    have hread := readable_of_field hxs (by simp)
    exact ⟨hread,_,by rw [hxs,length],m,hm,hnm,xs,hxs,true,hequal,rfl,xs,hxs,hsupported⟩

/-- On strings the first loop asks for a prefix. -/
theorem everyEqual_strings {ys vs : List JsVal} (hs : ∀ w ∈ vs, ∃ s, w = .string s) {i : Nat} :
    everyEqual (.array ys) i vs = .ok true ↔ vs <+: ys.drop i := by
  induction vs generalizing i with
  | nil => simp [everyEqual]
  | cons w vs ih =>
    obtain ⟨⟨s,rfl⟩,hs'⟩ := List.forall_mem_cons.mp hs
    have hitem : item (.array ys) i = .ok (ys[i]?.getD .undefined) := rfl
    rw [everyEqual,hitem,CheckChains.ok_bind]
    rcases Nat.lt_or_ge i ys.length with hi | hi
    · rw [List.getElem?_eq_getElem hi,List.drop_eq_getElem_cons hi,List.cons_prefix_cons,← ih hs',Option.getD_some]
      split
      · rename_i heq
        rw [string_strictEq] at heq
        simp [heq]
      · rename_i heq
        rw [string_strictEq] at heq
        exact iff_of_false (nomatch ·) fun h => heq h.1.symm
    · rw [List.getElem?_eq_none hi,List.drop_eq_nil_of_le hi]
      exact iff_of_false (nomatch ·) fun h => by cases List.prefix_nil.mp h

/-- On strings the second loop asks for members. -/
theorem everySupported_strings {zs vs : List JsVal} (hz : field ctx "supported_scopes" = .array zs)
    (hs : ∀ w ∈ vs, ∃ s, w = .string s) : everySupported pf ctx vs = .ok true ↔ ∀ w ∈ vs, w ∈ zs := by
  have hget : get ctx "supported_scopes" = .ok (.array zs) := get_eq_ok.mpr ⟨readable_of_field hz (by simp),hz⟩
  induction vs with
  | nil => simp [everySupported]
  | cons w vs ih =>
    obtain ⟨⟨s,rfl⟩,hs'⟩ := List.forall_mem_cons.mp hs
    have hany : zs.any (strictEq (.string s)) = true ↔ .string s ∈ zs := by
      simp [List.any_eq_true,string_strictEq]
    rw [everySupported,hget,CheckChains.ok_bind,includes,CheckChains.ok_bind,List.forall_mem_cons,← hany]
    split
    · rename_i hmem
      exact ⟨fun h => ⟨hmem,(ih hs').mp h⟩,fun h => (ih hs').mpr h.2⟩
    · rename_i hmem
      exact iff_of_false (nomatch ·) fun h => hmem h.1

theorem checkEffect_eq_ok (hc : Readable c) (hcap : Readable cap) (hctx : Readable ctx) :
    checkEffect pf c cap ctx = .ok u ↔ LinkedEffect pf c cap ctx := by
  simp only [checkEffect,CheckChains.bind_eq_ok,CheckChains.failIf_eq_ok,exists_const,Bool.not_eq_false,
    Bool.not_eq_true,get_eq_ok,exists_eq_left',hc,hcap,hctx,true_and,exists_eq_right]
  constructor
  · rintro ⟨h,h'⟩
    exact ⟨h,h'⟩
  · rintro ⟨h,h'⟩
    exact ⟨h,h'⟩

/-- The Node verifier passes a bundle when every hashed property is there and the
records are linked. -/
theorem finalityVerify_ok {d : JsVal} : (∃ out, finalityVerify pf d = .ok out) ↔ Present d ∧ Linked pf d := by
  simp only [finalityVerify,CheckChains.bind_eq_ok,CheckChains.pure_eq_ok,get_eq_ok]
  constructor
  · rintro ⟨_,_,⟨_,rfl⟩,key,hkey,s,hs,_,htransition,_,hevidence,_,hcapability,_,hscopes,_,heffect,_⟩
    obtain ⟨hpayload,hpresent,cd,hdescriptor,rfl⟩ := checkDescriptor_eq_ok.mp hs
    obtain ⟨hpresent',hlinked⟩ := checkTransition_eq_ok.mp htransition
    have hc := readable_of_field hdescriptor.status (by simp)
    have he := readable_of_field hdescriptor.evidenceCandidate (by simp)
    have hcap := readable_of_field hdescriptor.capCandidate (by simp)
    have hctx : Readable (field d "sink_context") := readable_of_field rfl
      (hpresent (js "sink_id",field (field d "sink_context") "sink_id") (by simp [rebuilt]))
    exact ⟨⟨hpayload,hpresent,hpresent'⟩,key,cd,hkey,hdescriptor,hlinked,checkEvidence_eq_ok.mp hevidence,
      (checkCapability_eq_ok hc he hctx).mp hcapability,(checkScopes_eq_ok hc).mp hscopes,
      (checkEffect_eq_ok hc hcap hctx).mp heffect⟩
  · rintro ⟨⟨hpayload,hpresent,hpresent'⟩,key,cd,hkey,hdescriptor,htransition,hevidence,hcapability,hscopes,heffect⟩
    have hc := readable_of_field hdescriptor.status (by simp)
    have he := readable_of_field hdescriptor.evidenceCandidate (by simp)
    have hcap := readable_of_field hdescriptor.capCandidate (by simp)
    have hctx : Readable (field d "sink_context") := readable_of_field rfl
      (hpresent (js "sink_id",field (field d "sink_context") "sink_id") (by simp [rebuilt]))
    have hd : Readable d := by
      apply readable_of_field (rfl : field d "candidate" = _)
      intro h
      exact hc.1 h
    exact ⟨_,_,⟨hd,rfl⟩,key,hkey,_,checkDescriptor_eq_ok.mpr ⟨hpayload,hpresent,cd,hdescriptor,rfl⟩,
      (),checkTransition_eq_ok.mpr ⟨hpresent',htransition⟩,(),checkEvidence_eq_ok.mpr hevidence,
      (),(checkCapability_eq_ok hc he hctx).mpr hcapability,(),(checkScopes_eq_ok hc).mpr hscopes,
      (),(checkEffect_eq_ok hc hcap hctx).mpr heffect,rfl⟩

end Node
end ExecutionFinality
