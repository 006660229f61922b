import SignedAudit.Proofs.Signing

namespace SignedAudit

/-! # One nonce for each receipt

A receipt is signed with a nonce that its signer draws for it, into a buffer of zeros. Between two receipts the
system may change in any way; the signer changes with each draw, by its count of draws, and with nothing else. So
along a whole service the draws are numbered without gaps and repetitions, one for each receipt in its turn. A
source that keeps a state of its own is a function of that number. -/

namespace Signer

open Effect

/-! ## Service -/

/-- What happens in service: a receipt is to be signed, or the system changes by what others do. -/
inductive Occurrence
  | receipt (r : Receipt)
  | meanwhile (change : System → System)

/-- The receipts that are to be signed, in their order. -/
def receiptsOf (occurrences : List Occurrence) : List Receipt :=
  occurrences.filterMap fun
    | .receipt r => some r
    | .meanwhile _ => none

/-- One receipt in its turn: the system that it found, what its signing came to, and the system that it left. -/
structure Turn where
  receipt : Receipt
  before : System
  outcome : Except Failure Bytes
  after : System

/-- Signs a receipt and takes note of it. -/
def turn (signer : Signer) (r : Receipt) : Effect (Turn × Signer) := do
  let before ← get
  let (outcome, signer) ← signer.signReceipt r
  return ({ receipt := r, before, outcome, after := ← get }, signer)

/-- Signs the receipts of a service, and goes on after failures: the turns, and the signer at the end. -/
def serve (signer : Signer) : List Occurrence → Effect (List Turn × Signer)
  | [] => return ([], signer)
  | .meanwhile change :: rest => do
    modify change
    serve signer rest
  | .receipt r :: rest => do
    let (turn, signer) ← signer.turn r
    let (turns, signer) ← serve signer rest
    return (turn :: turns, signer)

/-! ## A turn -/

/-- **A turn is decided by one draw.** Without a nonce it fails as the source did, and the provider is not asked;
with one it comes to the keyed digest of the receipt with just that nonce, under the whole secret, or to the
failure of the provider. -/
structure Turn.Draws (turn : Turn) (signer : Signer) (draw : Nat) : Prop where
  refused : ∀ f, signer.nonceSource draw (FixedBytes.zero 16) = .error f →
    turn.outcome = .error f ∧ turn.after = turn.before
  signed : ∀ nonce, signer.nonceSource draw (FixedBytes.zero 16) = .ok nonce →
    turn.outcome = (turn.before.provider.hmac turn.before.calls signer.secret (turn.receipt.canonical nonce)).map
      (fun d => Hex.encode d.val)
    ∧ turn.after = { turn.before with calls := turn.before.calls + 1 }

/-- Signing one receipt is a turn that makes the next draw. -/
theorem exists_perform_turn (signer : Signer) (r : Receipt) (s : System) :
    ∃ turn, (signer.turn r).perform s = (.ok (turn, { signer with draws := signer.draws + 1 }), turn.after)
      ∧ turn.receipt = r ∧ turn.before = s ∧ turn.Draws signer signer.draws := by
  unfold Signer.turn
  simp only [perform_bind, perform_get, perform_signReceipt, drawNonce]
  cases hdraw : signer.nonceSource signer.draws (FixedBytes.zero 16) with
  | error f =>
      refine ⟨⟨r, s, .error f, s⟩, rfl, rfl, rfl, ?_, ?_⟩
      · intro g hg
        obtain rfl := Except.error.inj (hdraw.symm.trans hg)
        exact ⟨rfl, rfl⟩
      · intro nonce hnonce
        cases hdraw.symm.trans hnonce
  | ok nonce =>
      refine ⟨⟨r, s, (signer.tag s (r.canonical nonce)).map Signature.ofDigest, asked s⟩, rfl, rfl, rfl,
        ?_, ?_⟩
      · intro f hf
        cases hdraw.symm.trans hf
      · intro other hother
        obtain rfl := Except.ok.inj (hdraw.symm.trans hother)
        exact ⟨rfl, rfl⟩

/-! ## All turns -/

/-- A turn that makes a draw comes before turns that make the draws behind it. -/
theorem draws_cons {signer : Signer} {draw : Nat} {first : Turn} {turns : List Turn} (h : first.Draws signer draw)
    (hrest : ∀ (k : Nat) (turn : Turn), turns[k]? = some turn → turn.Draws signer (draw + 1 + k)) (k : Nat)
    (turn : Turn) (hturn : (first :: turns)[k]? = some turn) : turn.Draws signer (draw + k) := by
  cases k with
  | zero =>
      obtain rfl := Option.some.inj hturn
      exact h
  | succ k =>
      have hlater := hrest k turn hturn
      rwa [Nat.add_assoc, Nat.add_comm 1 k] at hlater

/-- **A service signs one fresh nonce for each receipt.** Whatever the source does and whatever happens in between,
each receipt has its turn, the source is asked once for each turn, with a buffer of zeros, and the turn is decided
by what this draw yields. -/
theorem serve_draws_once (signer : Signer) (occurrences : List Occurrence) (s : System) :
    ∃ turns t,
      (signer.serve occurrences).perform s
          = (.ok (turns, { signer with draws := signer.draws + turns.length }), t)
        ∧ turns.map Turn.receipt = receiptsOf occurrences
        ∧ ∀ (k : Nat) (turn : Turn), turns[k]? = some turn → turn.Draws signer (signer.draws + k) := by
  induction occurrences generalizing signer s with
  | nil =>
      refine ⟨[], s, rfl, rfl, ?_⟩
      intro k turn hturn
      cases hturn
  | cons occurrence rest ih =>
      cases occurrence with
      | meanwhile change =>
          obtain ⟨turns, t, hserve, hreceipts, hdraws⟩ := ih signer (change s)
          exact ⟨turns, t, hserve, hreceipts, hdraws⟩
      | receipt r =>
          obtain ⟨turn, hturn, hreceipt, -, hdraw⟩ := signer.exists_perform_turn r s
          obtain ⟨turns, t, hserve, hreceipts, hdraws⟩ := ih { signer with draws := signer.draws + 1 } turn.after
          have hcount : signer.draws + 1 + turns.length = signer.draws + (turn :: turns).length := by
            rw [List.length_cons]
            omega
          rw [hcount] at hserve
          refine ⟨turn :: turns, t, ?_, ?_, draws_cons hdraw ?_⟩
          · simp only [serve, perform_bind, hturn, hserve, perform_pure]
          · rw [List.map_cons, hreceipt, hreceipts]
            rfl
          · -- the signer has changed in nothing but the count of its draws
            intro k other hother
            obtain ⟨hrefused, hsigned⟩ := hdraws k other hother
            exact ⟨hrefused, hsigned⟩

/-- A draw that fails costs one receipt and is not made up for. -/
example :
    let r : Receipt := ⟨Bytes.ascii "token", Bytes.ascii "10.0.0.1", 1, 1, .epoch⟩
    let source : NonceSource := fun draw nonce =>
      if draw = 1 then .error (.other (Bytes.ascii "no entropy")) else .ok nonce
    let signer : Signer := { secret := Bytes.ascii "secret", nonceSource := source }
    ((signer.serve [.receipt r, .receipt r, .receipt r]).perform lengthSystem).1.map
        (fun (turns, signer) => (turns.map (·.outcome.toBool), signer.draws))
      = .ok ([true, false, true], 3) := rfl

end Signer

end SignedAudit
