import Platho.Vault.Effect
import Platho.Tact.Run

/-!
# The fee ledger of a vault

A publish is in flight until its shard accepts it or it comes back. `Ledger` follows the vault, its
balance, what it has paid to the treasury and the fees of all publishes by what became of them. A
bounce can take a fee off the books that was flushed in between, so the books are exact only up to
the fees of the publishes that came back.
-/

namespace Platho.Vault

open Tact Ath

/-- What an action list pays to the treasury. -/
def flushedOf (actions : List VaultAction) : Nat :=
  (actions.map fun
    | .send m => if m.dest = fsTreasury ∧ m.body.isNone then m.value else 0
    | .reserve _ _ => 0).sum

/-- The fees of the publishes in an action list. -/
def publishedOf (actions : List VaultAction) : List Nat :=
  actions.filterMap fun
    | .send m =>
      match m.body with
      | some (.vaultPublish _ _ publish) => some publish.feeMemo
      | _ => none
    | .reserve _ _ => none

structure Ledger where
  vault : FeeVault
  balance : Nat
  flushed : Nat
  inFlight : List Nat
  landed : List Nat
  returned : List Nat

inductive LedgerEvent
  /-- A message for the vault, a bounced publish among them. -/
  | deliver (tx : Transaction VaultMessage)
  /-- The shard has accepted a publish with this fee. -/
  | land (feeMemo : Nat)

/-- The fees of the publishes that a message brings back. -/
def bouncedOf : VaultMessage → List Nat
  | .bouncedVaultPublish feeMemo => [feeMemo]
  | _ => []

/-- What a transaction takes out of the vault's own balance at most. -/
def spent (tx : Transaction VaultMessage) : Nat :=
  match tx.message with
  | .unstake _ => tx.fees.gas + tx.fees.forward 0
  | .emergencyExit _ => tx.fees.gas + tx.fees.forward 0
  | _ => tx.fees.gas

/-- What the vault keeps of a message for that. -/
def kept (tx : Transaction VaultMessage) : Nat :=
  match tx.message with
  | .publishViaVault _ => FeeVault.keepSelf tx.ctx
  | .unstake _ => fvUnstakeSelfKeep
  | .emergencyExit _ => fvUnstakeSelfKeep
  | _ => tx.ctx.value

namespace Ledger

/-- The environment delivers messages that pay for themselves, bounces of publishes in flight, and
the balance as it is. -/
def allowed (w : Ledger) : LedgerEvent → Prop
  | .deliver tx =>
    tx.ctx.myBalance = w.balance + tx.ctx.value ∧ tx.fees.gas ≤ tx.ctx.value ∧
      spent tx ≤ kept tx ∧ ∀ feeMemo ∈ bouncedOf tx.message, feeMemo ∈ w.inFlight
  | .land feeMemo => feeMemo ∈ w.inFlight

instance (w : Ledger) (e : LedgerEvent) : Decidable (w.allowed e) :=
  match e with
  | .deliver _ => inferInstanceAs (Decidable (_ ∧ _))
  | .land feeMemo => inferInstanceAs (Decidable (feeMemo ∈ w.inFlight))

/-- Take a message out of flight. -/
def arrive (w : Ledger) (message : VaultMessage) : Ledger :=
  { w with
    inFlight := w.inFlight.diff (bouncedOf message)
    returned := bouncedOf message ++ w.returned }

/-- A transaction that fails leaves the vault as it is and gives the value back or keeps it. -/
def reject (w : Ledger) (tx : Transaction VaultMessage) : Ledger :=
  { w with balance := balanceRejected w.balance tx.ctx.value tx.fees tx.bounceable }

/-- A transaction that succeeds. -/
def accept (w : Ledger) (next : FeeVault) (rest : Nat) (actions : List VaultAction) : Ledger :=
  { w with
    vault := next
    balance := rest
    flushed := w.flushed + flushedOf actions
    inFlight := publishedOf actions ++ w.inFlight }

def step (w : Ledger) : LedgerEvent → Option Ledger
  | .deliver tx =>
    match w.vault.receive tx.ctx tx.message with
    | .error _ => some ((w.arrive tx.message).reject tx)
    | .ok (next, actions) =>
      match settle w.balance tx.ctx.value tx.fees actions with
      | none => some ((w.arrive tx.message).reject tx)
      | some rest => some ((w.arrive tx.message).accept next rest actions)
  | .land feeMemo => some { w with
      inFlight := w.inFlight.erase feeMemo
      landed := feeMemo :: w.landed }

/-- The books between the fees that stand and all fees, and the balance above the books. -/
structure Sound (w : Ledger) : Prop where
  lower : w.inFlight.sum + w.landed.sum ≤ w.flushed + w.vault.accruedFee
  upper : w.flushed + w.vault.accruedFee ≤ w.inFlight.sum + w.landed.sum + w.returned.sum
  solvent : w.vault.accruedFee ≤ w.balance

variable {w w' : Ledger} {tx : Transaction VaultMessage} {next : FeeVault}
variable {actions : List VaultAction} {rest : Nat}

theorem sum_erase {memos : List Nat} {feeMemo : Nat} (member : feeMemo ∈ memos) :
    (memos.erase feeMemo).sum + feeMemo = memos.sum := by
  rw [(List.perm_cons_erase member).sum_eq, List.sum_cons, Nat.add_comm]

/-- A publish that comes back moves from the one side to the other. -/
theorem sum_diff {memos : List Nat} {message : VaultMessage}
    (inside : ∀ feeMemo ∈ bouncedOf message, feeMemo ∈ memos) :
    (memos.diff (bouncedOf message)).sum + (bouncedOf message).sum = memos.sum := by
  cases message with
  | bouncedVaultPublish feeMemo =>
    have member := inside feeMemo (by simp [bouncedOf])
    rw [bouncedOf, List.diff_cons, List.diff_nil, List.sum_singleton, sum_erase member]
  | _ => rfl

/-- The books as one accepted message moves them. -/
theorem effect_books {self : FeeVault}
    (effect : FeeVault.Effect self tx.ctx tx.message next actions) :
    flushedOf actions + next.accruedFee + (bouncedOf tx.message).sum ≥
        self.accruedFee + (publishedOf actions).sum ∧
      flushedOf actions + next.accruedFee ≤ self.accruedFee + (publishedOf actions).sum := by
  generalize tx.message = message at effect
  cases effect with
  | publish _ _ => simp [flushedOf, publishedOf, bouncedOf, FeeVault.forwardPublish]
  | publishFlush _ _ _ =>
    simp [flushedOf, publishedOf, bouncedOf, FeeVault.forwardPublish, FeeVault.payTreasury]
  | bounced =>
    simp only [flushedOf, publishedOf, bouncedOf, FeeVault.returnTo, List.map_cons, List.map_nil,
      List.filterMap_cons, List.filterMap_nil, List.sum_cons, List.sum_nil, ite_self]
    omega
  | flush _ _ =>
    simp [flushedOf, publishedOf, bouncedOf, FeeVault.returnTo, FeeVault.payTreasury]
  | withdraw => simp [flushedOf, publishedOf]
  | unstake _ same => simp [flushedOf, publishedOf, FeeVault.transferToOwner, same]
  | exit _ same => simp [flushedOf, publishedOf, FeeVault.transferToOwner, same]
  | silent _ same => simp [flushedOf, publishedOf, same]

/-- An accepted message leaves the books covered. -/
theorem effect_solvent {self : FeeVault} {balance : Nat}
    (effect : FeeVault.Effect self tx.ctx tx.message next actions)
    (gas : tx.fees.gas ≤ tx.ctx.value) (covered : spent tx ≤ kept tx)
    (settled : settle balance tx.ctx.value tx.fees actions = some rest)
    (solvent : self.accruedFee ≤ balance) : next.accruedFee ≤ rest := by
  obtain ⟨ctx, message, bounceable, fees⟩ := tx
  rw [settle] at settled
  simp only [spent, kept] at effect gas covered settled
  cases effect with
  | publish large _ =>
    obtain ⟨paid, _, last⟩ := (payActions_default rfl).mp settled
    obtain rfl := Option.some.inj last
    dsimp only at paid covered ⊢
    omega
  | publishFlush large _ _ =>
    obtain ⟨paid, _, flushed⟩ := (payActions_default rfl).mp settled
    obtain ⟨booked, _, last⟩ := (payActions_default rfl).mp flushed
    obtain rfl := Option.some.inj last
    dsimp only at paid booked covered ⊢
    omega
  | bounced =>
    have left : some _ = some rest := (payActions_return rfl rfl).symm.trans settled
    obtain rfl := Option.some.inj left
    dsimp only
    split <;> omega
  | flush _ _ => exact Nat.zero_le _
  | withdraw =>
    rw [payActions_reserve_all rfl settled]
    exact Nat.le_add_left _ _
  | unstake paid same =>
    obtain ⟨sent, last⟩ := (payActions_separately rfl).mp settled
    obtain rfl := Option.some.inj last
    simp only [fvUnstakeMinInbound, fvUnstakeSelfKeep, fvUnstakeLegValue] at paid covered sent ⊢
    omega
  | exit paid same =>
    obtain ⟨sent, last⟩ := (payActions_separately rfl).mp settled
    obtain rfl := Option.some.inj last
    simp only [fvUnstakeMinInbound, fvUnstakeSelfKeep, fvUnstakeLegValue] at paid covered sent ⊢
    omega
  | silent _ same =>
    obtain rfl := Option.some.inj settled
    omega

theorem Sound.arrive (sound : Sound w) {message : VaultMessage}
    (inside : ∀ feeMemo ∈ bouncedOf message, feeMemo ∈ w.inFlight) :
    Sound (w.arrive message) := by
  have moved := sum_diff inside
  obtain ⟨lower, upper, solvent⟩ := sound
  refine ⟨?_, ?_, solvent⟩
  · simp only [Ledger.arrive]
    omega
  · simp only [Ledger.arrive, List.sum_append]
    omega

/-- A transaction that fails costs the vault nothing. -/
theorem Sound.reject (sound : Sound w) (gas : tx.fees.gas ≤ tx.ctx.value) :
    Sound (w.reject tx) :=
  ⟨sound.lower, sound.upper, sound.solvent.trans (balanceRejected_ge gas)⟩

theorem Sound.accept (sound : Sound w) (gas : tx.fees.gas ≤ tx.ctx.value)
    (covered : spent tx ≤ kept tx)
    (inside : ∀ feeMemo ∈ bouncedOf tx.message, feeMemo ∈ w.inFlight)
    (accepted : w.vault.receive tx.ctx tx.message = .ok (next, actions))
    (settled : settle w.balance tx.ctx.value tx.fees actions = some rest) :
    Sound ((w.arrive tx.message).accept next rest actions) := by
  have effect := FeeVault.receive_effect accepted
  have moved := sum_diff inside
  obtain ⟨more, less⟩ := effect_books effect
  refine ⟨?_, ?_, effect_solvent effect gas covered settled sound.solvent⟩
  · have lower := sound.lower
    simp only [Ledger.accept, Ledger.arrive, List.sum_append]
    omega
  · have upper := sound.upper
    simp only [Ledger.accept, Ledger.arrive, List.sum_append]
    omega

theorem sound_step {e : LedgerEvent} (sound : Sound w) (permitted : w.allowed e)
    (stepped : w.step e = some w') : Sound w' := by
  cases e with
  | deliver tx =>
    obtain ⟨_, gas, covered, inside⟩ := permitted
    rw [step] at stepped
    split at stepped
    · obtain rfl := Option.some.inj stepped
      exact (sound.arrive inside).reject gas
    · next next actions accepted =>
        split at stepped
        · obtain rfl := Option.some.inj stepped
          exact (sound.arrive inside).reject gas
        · next rest settled =>
            obtain rfl := Option.some.inj stepped
            exact sound.accept gas covered inside accepted settled
  | land feeMemo =>
    obtain rfl := Option.some.inj stepped
    have moved := sum_erase permitted
    obtain ⟨lower, upper, solvent⟩ := sound
    refine ⟨?_, ?_, solvent⟩
    · simp only [List.sum_cons]
      omega
    · simp only [List.sum_cons]
      omega

/-- **The fee ledger of a vault is sound** in every state that a run reaches: whatever the order of
publishes, bounces, flushes and requests, what was flushed and what is booked cover the fees of all
publishes that did not bounce and no more than the fees of all publishes; the balance covers what is
booked; and no message takes more off the books than there is. -/
theorem fee_ledger {owner : Address} {vault : FeeVault} {balance : Nat} {events : List LedgerEvent}
    (deployed : FeeVault.init owner = .ok vault)
    (reached : run Ledger.allowed Ledger.step ⟨vault, balance, 0, [], [], []⟩ events = some w) :
    w.inFlight.sum + w.landed.sum ≤ w.flushed + w.vault.accruedFee ∧
      w.flushed + w.vault.accruedFee ≤ w.inFlight.sum + w.landed.sum + w.returned.sum ∧
      w.vault.accruedFee ≤ w.balance ∧
      ∀ ctx message, w.vault.receive ctx message ≠ .error rangeCheck := by
  simp only [FeeVault.init, throwUnless_bind_eq_ok, pure_eq_ok] at deployed
  obtain ⟨_, rfl⟩ := deployed
  obtain ⟨lower, upper, solvent⟩ := run_invariant
    (P := Sound) (fun _ _ _ sound permitted stepped => sound_step sound permitted stepped)
    ⟨Nat.zero_le _, le_rfl, Nat.zero_le _⟩ reached
  exact ⟨lower, upper, solvent, fun _ _ => FeeVault.receive_ne_rangeCheck⟩

section Sample

private def ledgerVault : FeeVault :=
  { owner := .std 0 7, staked := 0, pending := 0, pendingAt := 0, unstakeSeq := 0, exited := 0,
    exitedAt := 0, accruedFee := 0 }

private def ledgerDelivery (balance : Nat) (sender : Address) (value : Nat)
    (message : VaultMessage) : LedgerEvent :=
  .deliver {
    ctx := {
      sender
      value
      now := 0
      myAddress := .feeVault (.std 0 7)
      myBalance := balance + value
      myStorageDue := 0
      readForwardFee := 400000
      prices := { computeFee := fun units => 400 * units, forwardFee := fun _ _ => 400000 } }
    message
    bounceable := true
    fees := { gas := 5000000, forward := fun _ => 400000 } }

private def ledgerPublish : VaultMessage := .publishViaVault ⟨.std 0 8, .mk [] [], none, none⟩

/-- Two publishes, a flush, and then one of the publishes comes back. -/
private def ledgerEvents : List LedgerEvent :=
  [ledgerDelivery 60000000 (.std 0 7) 50000000 ledgerPublish,
    ledgerDelivery 71002000 (.std 0 7) 50000000 ledgerPublish,
    ledgerDelivery 82004000 (.std 0 7) 51000000 .flushFees,
    ledgerDelivery 62000000 (.std 0 8) 30000000 (.bouncedVaultPublish 10002000),
    .land 10002000]

theorem fee_ledger_ledgerEvents :
    ∃ w, run Ledger.allowed Ledger.step ⟨ledgerVault, 60000000, 0, [], [], []⟩ ledgerEvents =
        some w ∧ w.flushed = 20004000 ∧ w.landed = [10002000] ∧ w.returned = [10002000] ∧
      w.inFlight.sum + w.landed.sum ≤ w.flushed + w.vault.accruedFee ∧
      w.flushed + w.vault.accruedFee ≤ w.inFlight.sum + w.landed.sum + w.returned.sum ∧
      w.vault.accruedFee ≤ w.balance := by
  have known : (run Ledger.allowed Ledger.step ⟨ledgerVault, 60000000, 0, [], [], []⟩
      ledgerEvents).map (fun w => (w.flushed, w.landed, w.returned)) =
        some (20004000, [10002000], [10002000]) := by decide +kernel
  obtain ⟨w, reached, seen⟩ := Option.map_eq_some_iff.mp known
  obtain ⟨flushed, landed, returned⟩ := Prod.mk.inj seen |>.imp_right Prod.mk.inj
  obtain ⟨lower, upper, solvent, _⟩ :=
    fee_ledger (rfl : FeeVault.init (.std 0 7) = .ok ledgerVault) reached
  exact ⟨w, reached, flushed, landed, returned, lower, upper, solvent⟩

end Sample

end Ledger

end Platho.Vault
