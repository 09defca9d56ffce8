import Turnstile.Duplicate.Claim
import Turnstile.Job.Liveness
import Turnstile.Proofs.Text.Digits

/-!
# Idempotency keys

Jobs have one idempotency key just where they have one kind and one canonical text of their
arguments, as long as no two of the texts that are digested share a digest. No key of a live job is
an idempotency key.
-/

namespace Turnstile

/-- Two jobs of one kind whose arguments have one canonical text. -/
def Job.Equivalent (a b : Job) : Prop :=
  a.kind = b.kind ∧ Json.canonicalText a.args = Json.canonicalText b.args

def Job.key (job : Job) : String := IdempotencyKey.of job.kind job.args

def Job.preimage (job : Job) : String := IdempotencyKey.preimage job.kind job.args

/-- No two of the texts that are digested for jobs share a digest. -/
def CollisionFree (jobs : List Job) : Prop :=
  ∀ a ∈ jobs, ∀ b ∈ jobs, Digest.Sha256.hexDigest a.preimage = Digest.Sha256.hexDigest b.preimage →
    a.preimage = b.preimage

namespace IdempotencyKey

theorem length_hexText (words : List UInt32) :
    (Digest.hexText words).toList.length = 8 * words.length := by
  rw [Digest.hexText, String.toList_ofList]
  induction words with
  | nil => rfl
  | cons w rest ih =>
    rw [List.flatMap_cons, List.length_append, ih, Text.length_hexDigits, List.length_cons]
    omega

theorem length_digest (kind : String) (args : List Json) : (digest kind args).toList.length = 64 :=
  length_hexText _

theorem of_eq_iff {kind kind' : String} {args args' : List Json} :
    of kind args = of kind' args' ↔ kind = kind' ∧ digest kind args = digest kind' args' := by
  constructor
  · intro h
    have hl := congrArg String.toList h
    simp only [of, String.toList_append, List.append_assoc] at hl
    obtain ⟨hkind, hd⟩ := List.append_inj' (List.append_cancel_left hl) (by
      simp only [List.length_append, length_digest])
    exact ⟨String.toList_inj.mp hkind, String.toList_inj.mp (List.append_cancel_left hd)⟩
  · rintro ⟨rfl, h⟩
    rw [of, of, h]

end IdempotencyKey

theorem Job.key_eq_iff {jobs : List Job} (hc : CollisionFree jobs) {a b : Job} (ha : a ∈ jobs)
    (hb : b ∈ jobs) : a.key = b.key ↔ a.Equivalent b := by
  rw [Job.key, Job.key, IdempotencyKey.of_eq_iff]
  constructor
  · rintro ⟨hkind, hdigest⟩
    have hp := congrArg String.toList (hc a ha b hb hdigest)
    simp only [Job.preimage, IdempotencyKey.preimage, hkind, String.toList_append,
      List.append_assoc] at hp
    have ht := List.append_cancel_left (List.append_cancel_left hp)
    exact ⟨hkind, String.toList_inj.mp ht⟩
  · rintro ⟨hkind, ht⟩
    refine ⟨hkind, ?_⟩
    rw [IdempotencyKey.digest, IdempotencyKey.digest, IdempotencyKey.preimage,
      IdempotencyKey.preimage, hkind, ht]

theorem IdempotencyKey.of_ne_livenessKey (kind : String) (args : List Json) (id : String) :
    Liveness.key id ≠ IdempotencyKey.of kind args := by
  intro h
  have hl := congrArg (fun t : String => t.toList.head?) h
  simp only [Liveness.key, IdempotencyKey.of, String.toList_append, List.append_assoc] at hl
  have hhead : some 'j' = some 'd' := hl
  cases hhead

end Turnstile
