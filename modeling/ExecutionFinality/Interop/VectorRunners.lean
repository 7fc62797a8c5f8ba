import ExecutionFinality.Interop.GoVerifier
import ExecutionFinality.Interop.NodeVerifier
import ExecutionFinality.Interop.StructDecoding
import ExecutionFinality.Reference.Crypto

/-! The programs that check the vector files: `main.go` and `canonicalconformance` in Go, `verify.mjs` and
`canonical_conformance.mjs` in Node, and the tests of `test_interop.py`. -/
namespace ExecutionFinality
open Utf8 (Bytes)
open CheckChains (counted)

namespace Go

@[ext]
structure Vector where
  id : GoStr
  value : GoAny
  canonical : GoStr
  sha : GoStr
  hmac : GoStr

structure Bundle where
  keyHex : GoStr
  vectors : Slice Vector

@[ext]
structure Positive where
  id : GoStr
  value : GoAny
  canonical : GoStr

@[ext]
structure Negative where
  id : GoStr
  value : GoAny

structure Cases where
  positive : Slice Positive
  negative : Slice Negative

def Vector.type : StructType Vector where
  zero := ⟨[],.nil,[],[],[]⟩
  fields := [("id",fun d v => (storeString d v.id).map fun id => { v with id }),
    ("value",fun d v => some { v with value := reading.value d }),
    ("canonical_utf8",fun d v => (storeString d v.canonical).map fun canonical => { v with canonical }),
    ("sha256",fun d v => (storeString d v.sha).map fun sha => { v with sha }),
    ("hmac_sha256",fun d v => (storeString d v.hmac).map fun hmac => { v with hmac })]

def Bundle.type : StructType Bundle where
  zero := ⟨[],.nil⟩
  fields := [("key_hex",fun d v => (storeString d v.keyHex).map fun keyHex => { v with keyHex }),
    ("vectors",fun d v => (Vector.type.decodeSlice d v.vectors).map fun vectors => { v with vectors })]

def Positive.type : StructType Positive where
  zero := ⟨[],.nil,[]⟩
  fields := [("id",fun d v => (storeString d v.id).map fun id => { v with id }),
    ("value",fun d v => some { v with value := reading.value d }),
    ("canonical_utf8",fun d v => (storeString d v.canonical).map fun canonical => { v with canonical })]

def Negative.type : StructType Negative where
  zero := ⟨[],.nil⟩
  fields := [("id",fun d v => (storeString d v.id).map fun id => { v with id }),
    ("value",fun d v => some { v with value := reading.value d })]

def Cases.type : StructType Cases where
  zero := ⟨.nil,.nil⟩
  fields := [("positive",fun d v => (Positive.type.decodeSlice d v.positive).map fun positive => { v with positive }),
    ("negative",fun d v => (Negative.type.decodeSlice d v.negative).map fun negative => { v with negative })]

/-- What stops a runner before it prints. -/
inductive RunnerPanic where
  /-- The error of `hex.DecodeString` -/
  | key (err : Panic)
  /-- The message ends with the error of `Canonical`. -/
  | canonical (message : GoStr) (err : Err)
  | text (message : GoStr)

/-- `%d` -/
def decimal (n : Nat) : GoStr := Utf8.encode (Nat.toDigits 10 n)

/-- One turn of the loop of `main.go` -/
def verifyVector (pf : Platform) (key : Bytes) (v : Vector) : Except RunnerPanic Unit := do
  let c ← (canonical pf.nfc v.value).mapError (.canonical (v.id ++ go " canonicalization error: "))
  failIf (c ≠ v.canonical) (.text (v.id ++ go " canonical mismatch: " ++ c ++ go " != " ++ v.canonical))
  failIf (Utf8.encode (hexChars (pf.sha256 c)) ≠ v.sha) (.text (v.id ++ go " sha mismatch"))
  failIf (Utf8.encode (hexChars (pf.hmacSha256 key c)) ≠ v.hmac) (.text (v.id ++ go " hmac mismatch"))

/-- `main` of `main.go` on a decoded bundle; the result is what it prints. -/
def verifyVectors (pf : Platform) (bundle : Bundle) : Except RunnerPanic GoStr := do
  let key ← (decodeString bundle.keyHex).mapError .key
  let ok ← counted (verifyVector pf key) bundle.vectors.elements 0
  return go "Go interop verified " ++ decimal ok ++ go "/" ++ decimal bundle.vectors.elements.length ++
    go " vectors"

def checkPositive (nfc : Nfc) (tc : Positive) : Except RunnerPanic Unit := do
  let got ← (canonical nfc tc.value).mapError (.canonical (tc.id ++ go " unexpectedly rejected: "))
  failIf (got ≠ tc.canonical) (.text (tc.id ++ go " mismatch: " ++ got ++ go " != " ++ tc.canonical))

def checkNegative (nfc : Nfc) (tc : Negative) : Except RunnerPanic Unit :=
  match canonical nfc tc.value with
  | .ok got => .error (.text (tc.id ++ go " unexpectedly accepted: " ++ got))
  | .error _ => .ok ()

/-- `main` of `canonicalconformance` on the decoded cases -/
def canonicalconformance (nfc : Nfc) (cases : Cases) : Except RunnerPanic GoStr := do
  let passed ← counted (checkPositive nfc) cases.positive.elements 0
  let passed ← counted (checkNegative nfc) cases.negative.elements passed
  return go "Go canonicalization conformance verified " ++ decimal passed ++ go "/" ++
    decimal (cases.positive.elements.length + cases.negative.elements.length) ++ go " cases"

end Go

namespace Node

/-- `for (const x of v)` -/
def iterate : JsVal → Except Err (List JsVal)
  | .array xs => .ok xs
  | .string s => .ok ((Utf16.codePoints s).map fun c => .string (Utf16.units c))
  | _ => .error .typeError

/-- `if (a !== b) throw new Error(message)` -/
def throwUnless (a b : JsVal) (message : Except Err JsStr) : Except Err Unit :=
  if strictEq a b then .ok () else do .error (.error (← message))

/-- `${n}` of a count -/
def decimal (pf : Platform) (n : Nat) : JsStr := pf.numberToString (.finite (n : Int))

/-- One turn of the loop of `verify.mjs` -/
def verifyVector (pf : Platform) (key : Bytes) (vector : JsVal) : Except Err Unit := do
  let c ← canonical pf (← get vector "value")
  let sha := Utf16.encode (hexChars (pf.sha256 (utf8 c)))
  let mac := Utf16.encode (hexChars (pf.hmacSha256 key (utf8 c)))
  throwUnless (.string c) (field vector "canonical_utf8") do
    return (← toStr pf (field vector "id")) ++ js ": canonical mismatch\n" ++ c ++ js "\n" ++
      (← toStr pf (field vector "canonical_utf8"))
  throwUnless (.string sha) (field vector "sha256") do return (← toStr pf (field vector "id")) ++ js ": sha mismatch"
  throwUnless (.string mac) (field vector "hmac_sha256") do
    return (← toStr pf (field vector "id")) ++ js ": hmac mismatch"

/-- `verify.mjs` on the parsed data; the result is what it prints. -/
def verifyVectors (pf : Platform) (data : JsVal) : Except Err JsStr := do
  let key ← bufferFromHex pf (← get data "key_hex")
  let vectors := field data "vectors"
  let ok ← counted (verifyVector pf key) (← iterate vectors) 0
  return js "Node interop verified " ++ decimal pf ok ++ js "/" ++ (← toStr pf (← length vectors)) ++ js " vectors"

def checkPositive (pf : Platform) (tc : JsVal) : Except Err Unit := do
  let got ← canonical pf (← get tc "value")
  throwUnless (.string got) (field tc "canonical_utf8") do
    return (← toStr pf (field tc "id")) ++ js ": " ++ got ++ js " != " ++ (← toStr pf (field tc "canonical_utf8"))

/-- Whatever the `try` block throws counts as a rejection. -/
def checkNegative (pf : Platform) (tc : JsVal) : Except Err Unit :=
  match (do canonical pf (← get tc "value") : Except Err JsStr) with
  | .ok _ => do .error (.error ((← toStr pf (field tc "id")) ++ js ": unexpectedly accepted"))
  | .error _ => .ok ()

/-- `canonical_conformance.mjs` on the parsed cases -/
def canonicalConformance (pf : Platform) (cases : JsVal) : Except Err JsStr := do
  let positive ← get cases "positive"
  let passed ← counted (checkPositive pf) (← iterate positive) 0
  let negative := field cases "negative"
  let passed ← counted (checkNegative pf) (← iterate negative) passed
  return js "Node canonicalization conformance verified " ++ decimal pf passed ++ js "/" ++
    (← toStr pf (← add pf (← length positive) (← length negative))) ++ js " cases"

end Node

namespace PyVal

/-- `v[name]` of a dictionary; no other value that `json.loads` returns has string keys. -/
def item : PyVal → String → Option PyVal
  | .dict es,name => es.findSome? fun e => match e.1 with
    | .str k => if k = py name then some e.2 else .none
    | _ => .none
  | _,_ => .none

/-- `v == s` for a string -/
def eqStr : PyVal → PyStr → Bool
  | .text _ t,s => t = s
  | _,_ => false

/-- What a loop over a value of `json.loads` runs through -/
def iter : PyVal → Option (List PyVal)
  | .list xs => some xs
  | .str s => some (s.map fun c => .str [c])
  | .dict es => es.mapM fun e => match e.1 with
    | .str k => some (.str k)
    | _ => .none
  | _ => .none

end PyVal

namespace Platform

/-- The tests of a file pass when nothing raises and every assertion holds. -/
def testPythonInteropVectors (pf : Platform) (key : Bytes) (vector : PyVal) : Option Unit := do
  let c ← (pf.portableCanonicalBytes (← vector.item "value")).toOption
  guard ((← vector.item "canonical_utf8").eqStr (PyStr.ofChars (← Utf8.decode c)))
  guard ((← vector.item "sha256").eqStr (PyStr.ofChars (hexChars (pf.sha256 c))))
  guard ((← vector.item "hmac_sha256").eqStr (PyStr.ofChars (hexChars (pf.hmacSha256 key c))))

def testPythonCanonicalizationConformancePositive (pf : Platform) (case : PyVal) : Option Unit := do
  let c ← (pf.portableCanonicalBytes (← case.item "value")).toOption
  guard ((← case.item "canonical_utf8").eqStr (PyStr.ofChars (← Utf8.decode c)))

/-- `with pytest.raises(CanonicalizationError)` -/
def testPythonCanonicalizationConformanceNegative (pf : Platform) (case : PyVal) : Option Unit := do
  match pf.portableCanonicalBytes (← case.item "value") with
  | .error (.canonicalizationError _) => some ()
  | _ => none

/-- A test for every element, named by its `id` -/
def parametrized (cases : PyVal) (test : PyVal → Option Unit) : Option Unit := do
  (← cases.iter).forM fun case => do
    let _ ← case.item "id"
    test case

def vectorTests (pf : Platform) (data : PyVal) : Option Unit := do
  match ← data.item "key_hex" with
  | .str keyHex => do
    let key ← fromHex keyHex
    parametrized (← data.item "vectors") (pf.testPythonInteropVectors key)
  | _ => none

def conformanceTests (pf : Platform) (conf : PyVal) : Option Unit := do
  parametrized (← conf.item "positive") pf.testPythonCanonicalizationConformancePositive
  parametrized (← conf.item "negative") pf.testPythonCanonicalizationConformanceNegative

end Platform

/-! When a runner prints that everything has passed -/

open CheckChains (bind_eq_ok failIf_eq_ok pure_eq_ok counted_eq_ok ok_bind)

namespace Go
variable {pf : Platform} {nfc : Nfc}

theorem verifyVectors_eq_ok {bundle : Bundle} {key : Bytes} (hkey : decodeString bundle.keyHex = .ok key) {n : Nat}
    (hn : n = bundle.vectors.elements.length) : verifyVectors pf bundle =
      .ok (go "Go interop verified " ++ decimal n ++ go "/" ++ decimal n ++ go " vectors") ↔
      ∀ v ∈ bundle.vectors.elements, verifyVector pf key v = .ok () := by
  subst hn
  simp only [verifyVectors,hkey,Except.mapError,ok_bind,bind_eq_ok,counted_eq_ok,pure_eq_ok,Nat.zero_add]
  constructor
  · rintro ⟨_,⟨h,_⟩,_⟩
    exact h
  · exact fun h => ⟨_,⟨h,rfl⟩,rfl⟩

theorem checkNegative_eq_ok {tc : Negative} {u : Unit} :
    checkNegative nfc tc = .ok u ↔ ¬ ∃ b, canonical nfc tc.value = .ok b := by
  unfold checkNegative
  cases canonical nfc tc.value <;> simp

theorem canonicalconformance_eq_ok {cases : Cases} {n : Nat}
    (hn : n = cases.positive.elements.length + cases.negative.elements.length) : canonicalconformance nfc cases =
      .ok (go "Go canonicalization conformance verified " ++ decimal n ++ go "/" ++ decimal n ++ go " cases") ↔
      (∀ tc ∈ cases.positive.elements, checkPositive nfc tc = .ok ()) ∧
        ∀ tc ∈ cases.negative.elements, checkNegative nfc tc = .ok () := by
  subst hn
  simp only [canonicalconformance,bind_eq_ok,counted_eq_ok,pure_eq_ok,Nat.zero_add]
  constructor
  · rintro ⟨_,⟨h,rfl⟩,_,⟨h',_⟩,_⟩
    exact ⟨h,h'⟩
  · rintro ⟨h,h'⟩
    exact ⟨_,⟨h,rfl⟩,_,⟨h',rfl⟩,rfl⟩

end Go

namespace Node
variable {pf : Platform} {data v w : JsVal} {vs ws : List JsVal} {key : Bytes}

theorem toStr_number (x : Binary64) : toStr pf (.number x) = .ok (pf.numberToString x) := rfl

theorem throwUnless_eq_ok {a b : JsVal} {message : Except Err JsStr} {u : Unit} :
    throwUnless a b message = .ok u ↔ strictEq a b = true := by
  unfold throwUnless
  split
  · rename_i h
    exact iff_of_true rfl h
  · rename_i h
    refine iff_of_false ?_ h
    simp

theorem verifyVectors_eq_ok (hget : get data "key_hex" = .ok v) (hkey : bufferFromHex pf v = .ok key)
    (hvs : field data "vectors" = .array vs) : verifyVectors pf data =
      .ok (js "Node interop verified " ++ decimal pf vs.length ++ js "/" ++ decimal pf vs.length ++ js " vectors") ↔
      ∀ v ∈ vs, verifyVector pf key v = .ok () := by
  simp only [verifyVectors,hget,hkey,hvs,iterate,length,toStr_number,ok_bind,bind_eq_ok,counted_eq_ok,pure_eq_ok,Nat.zero_add]
  constructor
  · rintro ⟨_,⟨h,_⟩,_⟩
    exact h
  · exact fun h => ⟨_,⟨h,rfl⟩,rfl⟩

theorem checkNegative_eq_ok {u : Unit} (hget : get data "value" = .ok v) :
    checkNegative pf data = .ok u ↔ ¬ ∃ b, canonicalBytes pf v = .ok b := by
  simp only [checkNegative,hget,ok_bind,canonicalBytes_eq_ok]
  cases canonical pf v <;> simp

theorem canonicalConformance_eq_ok (hvs : get data "positive" = .ok (.array vs)) (hws : field data "negative" = .array ws)
    {n : Nat} (hn : n = vs.length + ws.length) : canonicalConformance pf data =
      .ok (js "Node canonicalization conformance verified " ++ decimal pf n ++ js "/" ++
        pf.numberToString (Binary64.round (n : Int)) ++ js " cases") ↔
      (∀ v ∈ vs, checkPositive pf v = .ok ()) ∧ ∀ w ∈ ws, checkNegative pf w = .ok () := by
  subst hn
  have htotal : Binary64.add (.finite (vs.length : Int)) (.finite (ws.length : Int)) =
      Binary64.round ((vs.length + ws.length : Nat) : Int) := by
    rw [Binary64.add]
    push_cast
    rfl
  simp only [canonicalConformance,hvs,hws,iterate,length,add,toPrimitive,toNumber,ok_bind,bind_eq_ok,counted_eq_ok,
    pure_eq_ok,Nat.zero_add,htotal]
  constructor
  · rintro ⟨_,⟨h,rfl⟩,_,⟨h',_⟩,_⟩
    exact ⟨h,h'⟩
  · rintro ⟨h,h'⟩
    exact ⟨_,⟨h,rfl⟩,_,⟨h',rfl⟩,_,rfl,_,rfl,rfl⟩

end Node
end ExecutionFinality
