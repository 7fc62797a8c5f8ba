import ExecutionFinality.Interop.GoCanonical

/-! `main.go`: the portable verifier in Go. -/
namespace ExecutionFinality
open Utf8 (Bytes)

namespace Go

/-- What stops the verifier before it prints. -/
inductive Panic where
  | text (message : GoStr)
  | canonical (err : Err)
  /-- `encoding/hex: invalid byte` -/
  | invalidByte (b : UInt8)
  /-- `encoding/hex: odd length hex string` -/
  | oddLength
  /-- The error of `strconv.ParseInt` -/
  | parseInt (token : GoStr)
  /-- A failed type assertion -/
  | conversion
  | indexOutOfRange

def sha (pf : Platform) (v : GoAny) : Except Panic GoStr := do
  return Utf8.encode (hexChars (pf.sha256 (← (canonical pf.nfc v).mapError .canonical)))

def mac (pf : Platform) (v : GoAny) (key : Bytes) : Except Panic GoStr := do
  return Utf8.encode (hexChars (pf.hmacSha256 key (← (canonical pf.nfc v).mapError .canonical)))

def obj : GoAny → Except Panic (List (GoStr × GoAny))
  | .map es => .ok es
  | _ => .error .conversion

def arr : GoAny → Except Panic (List GoAny)
  | .slice xs => .ok xs
  | _ => .error .conversion

def s : GoAny → Except Panic GoStr
  | .string b => .ok b
  | _ => .error .conversion

/-- `strconv.ParseInt` of the token of a number -/
def num : GoAny → Except Panic Int
  | .number n =>
    match setString n with
    | none => .error (.parseInt n)
    | some i => if -2^63 ≤ i ∧ i < 2^63 then .ok i else .error (.parseInt n)
  | _ => .error .conversion

/-- The result of `int64` arithmetic -/
def int64 (n : Int) : Int := n.bmod (2^64)

def eq (a b : GoStr) (msg : String) : Except Panic Unit :=
  failIf (a ≠ b) (.text (go msg ++ go ": " ++ a ++ go " != " ++ b))

/-- `m[key]`; a missing entry reads as `nil`. -/
def get (m : List (GoStr × GoAny)) (key : String) : GoAny := (m.lookup (go key)).getD .nil

def unsigned (m : List (GoStr × GoAny)) : List (GoStr × GoAny) := m.filter fun e => e.1 ≠ go "signature"

def without (m : List (GoStr × GoAny)) (key : String) : List (GoStr × GoAny) := m.filter fun e => e.1 ≠ go key

def hexDigit? (b : UInt8) : Option Nat :=
  if 48 ≤ b.toNat ∧ b.toNat ≤ 57 then some (b.toNat - 48)
  else if 97 ≤ b.toNat ∧ b.toNat ≤ 102 then some (b.toNat - 87)
  else if 65 ≤ b.toNat ∧ b.toNat ≤ 70 then some (b.toNat - 55)
  else none

/-- `hex.DecodeString` -/
def decodeString : GoStr → Except Panic Bytes
  | [] => .ok []
  | [p] => .error (if (hexDigit? p).isSome then .oddLength else .invalidByte p)
  | p :: q :: s =>
    match hexDigit? p,hexDigit? q with
    | none,_ => .error (.invalidByte p)
    | _,none => .error (.invalidByte q)
    | some a,some b => do return UInt8.ofNat (16 * a + b) :: (← decodeString s)

/-- `rebuilt` -/
def rebuilt (c ctx : List (GoStr × GoAny)) (pd : GoStr) : List (GoStr × GoAny) :=
  [(go "schema",.string (go "finality-hcad/v1")),(go "act_id",get c "act_id"),(go "act_class",get c "act_class"),
    (go "effect_class",get c "effect_class"),(go "source",get c "source"),(go "destination",get c "destination"),
    (go "purpose",get c "purpose"),(go "jurisdiction",get c "jurisdiction"),
    (go "policy_epoch",get c "policy_epoch"),(go "nonce",get c "nonce"),(go "issued_at_ns",get c "issued_at_ns"),
    (go "freshness_ns",get c "freshness_ns"),(go "sink_id",get ctx "sink_id"),
    (go "boundary_id",get ctx "boundary_id"),(go "scope",get c "scope"),(go "payload_digest",.string pd),
    (go "runtime_evidence_digest",get c "runtime_evidence_digest")]

/-- `tc` -/
def transitionCore (t : List (GoStr × GoAny)) (cd : GoStr) : List (GoStr × GoAny) :=
  [(go "nonce",get t "nonce"),(go "source",get t "source"),(go "before_version",get t "before_version"),
    (go "after_version",get t "after_version"),(go "quota_before",get t "quota_before"),
    (go "quota_after",get t "quota_after"),(go "budget_before",get t "budget_before"),
    (go "budget_after",get t "budget_after"),(go "policy_epoch",get t "policy_epoch"),
    (go "candidate_digest",.string cd)]

/-! `main` in its order, cut where a record is done with. -/

/-- Candidate and descriptor; returns `cd`. -/
def checkDescriptor (pf : Platform) (c h e cap ctx : List (GoStr × GoAny)) : Except Panic GoStr := do
  failIf ((← s (get c "status")) ≠ go "NON_EFFECTIVE") (.text (go "candidate not non-effective"))
  let cd ← sha pf (.map c)
  eq cd (← s (get cap "candidate_digest")) "candidate/cap"
  eq cd (← s (get e "candidate_digest")) "candidate/evidence"
  let pd ← sha pf (get c "payload")
  eq pd (← s (get h "payload_digest")) "payload digest"
  let dd ← sha pf (.map (rebuilt c ctx pd))
  eq dd (← s (get cap "descriptor_digest")) "descriptor/cap"
  eq dd (← s (get e "descriptor_digest")) "descriptor/evidence"
  eq (← sha pf (.map h)) dd "provided HCAD"
  return cd

def checkTransition (pf : Platform) (cd : GoStr) (t e cap : List (GoStr × GoAny)) : Except Panic Unit := do
  eq (← sha pf (.map (transitionCore t cd))) (← s (get t "transition_id")) "transition id"
  failIf ((← num (get t "after_version")) ≠ int64 ((← num (get t "before_version")) + 1))
    (.text (go "invalid transition"))
  failIf ((← num (get t "quota_after")) ≠ int64 ((← num (get t "quota_before")) - 1))
    (.text (go "invalid transition"))
  failIf ((← num (get t "budget_after")) ≥ (← num (get t "budget_before"))) (.text (go "invalid transition"))
  eq (← s (get t "transition_id")) (← s (get cap "transition_id")) "transition cap"
  eq (← s (get t "transition_id")) (← s (get e "transition_id")) "transition evidence"

def checkEvidence (pf : Platform) (key : Bytes) (e : List (GoStr × GoAny)) : Except Panic Unit := do
  let eu := unsigned e
  eq (← mac pf (.map eu) key) (← s (get e "signature")) "evidence HMAC"
  eq (← sha pf (.map (without eu "evidence_id"))) (← s (get e "evidence_id")) "evidence id"
  failIf ((← s (get e "decision")) ≠ go "ALLOW") (.text (go "evidence not ALLOW"))

def checkCapability (pf : Platform) (key : Bytes) (c e cap ctx : List (GoStr × GoAny)) : Except Panic Unit := do
  let cu := unsigned cap
  eq (← mac pf (.map cu) key) (← s (get cap "signature")) "cap HMAC"
  eq (← sha pf (.map (without cu "capability_id"))) (← s (get cap "capability_id")) "cap id"
  eq (← s (get cap "sink_id")) (← s (get ctx "sink_id")) "sink"
  eq (← s (get cap "boundary_id")) (← s (get ctx "boundary_id")) "boundary"
  failIf ((← num (get cap "policy_epoch")) ≠ (← num (get ctx "policy_epoch"))) (.text (go "epoch mismatch"))
  eq (← s (get cap "nonce")) (← s (get c "nonce")) "nonce"
  eq (← s (get cap "authority_id")) (← s (get e "authority_id")) "authority"

/-- The loop over `xs`; it does not stop at a match. -/
def supported (v : GoAny) : List GoAny → Bool → Except Panic Bool
  | [], ok => .ok ok
  | x :: xs, ok => do supported v xs (ok || decide ((← s v) = (← s x)))

/-- The loop over `cs`, from index `i` on -/
def checkScope (c : List (GoStr × GoAny)) (xs : List GoAny) : Nat → List GoAny → Except Panic Unit
  | _, [] => .ok ()
  | i, v :: cs => do
    let a ← s v
    match (← arr (get c "scope"))[i]? with
    | none => .error .indexOutOfRange
    | some y =>
      failIf (a ≠ (← s y)) (.text (go "scope mismatch"))
      failIf ((← supported v xs false) = false) (.text (go "unsupported scope"))
      checkScope c xs (i + 1) cs

def checkScopes (c cap ctx : List (GoStr × GoAny)) : Except Panic Unit := do
  let cs ← arr (get cap "scope")
  let xs ← arr (get ctx "supported_scopes")
  failIf (cs.length ≠ (← arr (get c "scope")).length) (.text (go "scope length"))
  checkScope c xs 0 cs

def checkEffect (c cap ctx : List (GoStr × GoAny)) : Except Panic Unit := do
  eq (← s (get c "effect_class")) (← s (get ctx "effect_class")) "effect class"
  failIf ((← num (get cap "expires_at_ns")) >
      int64 ((← num (get c "issued_at_ns")) + (← num (get c "freshness_ns"))))
    (.text (go "cap outlives candidate"))

/-- `main` on a decoded bundle; the result is what it prints. -/
def finalityverify (pf : Platform) (d : List (GoStr × GoAny)) : Except Panic GoStr := do
  let key ← decodeString (← s (get d "authority_key_hex"))
  let c ← obj (get d "candidate")
  let h ← obj (get d "hcad")
  let t ← obj (get d "state_transition")
  let e ← obj (get d "validation_evidence")
  let cap ← obj (get d "capability")
  let ctx ← obj (get d "sink_context")
  let cd ← checkDescriptor pf c h e cap ctx
  checkTransition pf cd t e cap
  checkEvidence pf key e
  checkCapability pf key c e cap ctx
  checkScopes c cap ctx
  checkEffect c cap ctx
  return go "Go portable Finality Sink verification: PASS"

theorem s_eq_ok {v : GoAny} {b : GoStr} : s v = .ok b ↔ v = .string b := by
  cases v <;> simp [s]

theorem obj_eq_ok {v : GoAny} {es : List (GoStr × GoAny)} : obj v = .ok es ↔ v = .map es := by
  cases v <;> simp [obj]

theorem arr_eq_ok {v : GoAny} {xs : List GoAny} : arr v = .ok xs ↔ v = .slice xs := by
  cases v <;> simp [arr]

theorem eq_eq_ok {a b : GoStr} {msg : String} {u : Unit} : eq a b msg = .ok u ↔ a = b := by
  rw [eq,CheckChains.failIf_eq_ok,not_not]

theorem mapError_eq_ok {ε δ α : Type} {x : Except ε α} {f : ε → δ} {a : α} : x.mapError f = .ok a ↔ x = .ok a := by
  cases x <;> simp [Except.mapError]

theorem sha_eq_ok {pf : Platform} {v : GoAny} {d : GoStr} : sha pf v = .ok d ↔
    ∃ b, canonical pf.nfc v = .ok b ∧ Utf8.encode (hexChars (pf.sha256 b)) = d := by
  simp only [sha,CheckChains.bind_eq_ok,CheckChains.pure_eq_ok,mapError_eq_ok]

theorem mac_eq_ok {pf : Platform} {v : GoAny} {key : Bytes} {d : GoStr} : mac pf v key = .ok d ↔
    ∃ b, canonical pf.nfc v = .ok b ∧ Utf8.encode (hexChars (pf.hmacSha256 key b)) = d := by
  simp only [mac,CheckChains.bind_eq_ok,CheckChains.pure_eq_ok,mapError_eq_ok]

end Go
end ExecutionFinality
