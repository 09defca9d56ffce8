import Turnstile.Proofs.Duplicate.Keys
import Turnstile.Proofs.Json.Brackets

/-!
# What an idempotency key identifies

The bytes that are digested for a submission tell its kind and its arguments up to the order of the
entries of objects, whatever characters the kind is made of. So equivalent submissions have one key, and
others share a key only where two digested texts share a digest.
-/

namespace Turnstile

namespace Digest

theorem toList_loop_eq (bytes : ByteArray) (i : Nat) (r : List UInt8) :
    ByteArray.toList.loop bytes i r = r.reverse ++ bytes.data.toList.drop i := by
  induction i, r using ByteArray.toList.loop.induct bytes with
  | case1 i r hi ih =>
    have hlength : i < bytes.data.toList.length := by simpa using hi
    have hget : bytes.get! i = bytes.data.toList[i] := getElem!_pos bytes.data i (by simpa using hi)
    rw [ByteArray.toList.loop, if_pos hi, ih, List.drop_eq_getElem_cons hlength, hget,
      List.reverse_cons, List.append_assoc, List.singleton_append]
  | case2 i r hi =>
    have hlength : bytes.data.toList.length ≤ i := by simpa using hi
    rw [ByteArray.toList.loop, if_neg hi, List.drop_eq_nil_of_le hlength, List.append_nil]

/-- Texts with the same bytes are equal. -/
theorem utf8_inj {a b : String} : utf8 a = utf8 b ↔ a = b := by
  refine ⟨fun h => ?_, congrArg utf8⟩
  have htoList (bytes : ByteArray) : bytes.toList = bytes.data.toList := toList_loop_eq bytes 0 []
  rw [utf8, utf8, htoList, htoList] at h
  exact String.toByteArray_inj.mp (ByteArray.ext (Array.toList_inj.mp h))

end Digest

namespace IdempotencyKey

open Json

variable {D : Double → Prop} {kind kind' : String} {args args' : List Json}

theorem preimage_eq_iff (hD : Spelled D) (h : ∀ v ∈ args, v.Proper D)
    (h' : ∀ v ∈ args', v.Proper D) :
    preimage kind args = preimage kind' args' ↔ kind = kind' ∧ AlikeItems args args' := by
  rw [← canonicalize_arr_eq_iff h]
  constructor
  · intro he
    have hlist := congrArg String.toList he
    simp only [preimage, canonicalText, canonicalize, String.toList_append, List.append_assoc] at hlist
    obtain ⟨hkind, htext⟩ := append_colon_render_arr_inj hlist
    have hproper : (canonicalize (.arr args)).Proper D := Proper.canonicalize (.arr h)
    have hproper' : (canonicalize (.arr args')).Proper D := Proper.canonicalize (.arr h')
    have hend : Ends [] := fun c hc => absurd hc (Option.not_mem_none c)
    obtain ⟨hvalue, _⟩ := render_append_inj hD hproper hproper' (r := []) (s := []) hend hend
      (by simpa [canonicalize] using htext)
    exact ⟨String.toList_inj.mp hkind, hvalue⟩
  · rintro ⟨rfl, hargs⟩
    rw [preimage, preimage, canonicalText, canonicalText, hargs]

/-- The bytes that are digested for two submissions are the same just where the kinds are and the
arguments are alike; submissions that are alike have one key, and others share one only by a collision
of digests. -/
theorem identifies (hD : Spelled D) (h : ∀ v ∈ args, v.Proper D) (h' : ∀ v ∈ args', v.Proper D) :
    (Digest.utf8 (preimage kind args) = Digest.utf8 (preimage kind' args') ↔
      kind = kind' ∧ AlikeItems args args') ∧
    (kind = kind' ∧ AlikeItems args args' → of kind args = of kind' args') ∧
    (of kind args = of kind' args' → ¬(kind = kind' ∧ AlikeItems args args') →
      Digest.utf8 (preimage kind args) ≠ Digest.utf8 (preimage kind' args') ∧
      Digest.Sha256.hexDigest (preimage kind args) =
        Digest.Sha256.hexDigest (preimage kind' args')) := by
  rw [Digest.utf8_inj, Ne, Digest.utf8_inj]
  have hiff : preimage kind args = preimage kind' args' ↔ kind = kind' ∧ AlikeItems args args' :=
    preimage_eq_iff hD h h'
  refine ⟨hiff, fun halike => ?_, fun hof hdistinct => ?_⟩
  · rw [of_eq_iff, digest, digest, hiff.mpr halike]
    exact ⟨halike.1, rfl⟩
  · exact ⟨fun he => hdistinct (hiff.mp he), (of_eq_iff.mp hof).2⟩

/-- One object in two orders, under a kind that looks like the beginning of another submission. -/
theorem identifies_of_reordered :
    of "copy:[1]:[" [.obj [("b", .double ⟨0x3ff8000000000000⟩), ("a", .int 1)]] =
      of "copy:[1]:[" [.obj [("a", .int 1), ("b", .double ⟨0x3ff8000000000000⟩)]] := by
  have hD : Spelled fun x => x = ⟨0x3ff8000000000000⟩ := by
    refine ⟨?_, ?_⟩
    · rintro x rfl
      decide
    · rintro x y rfl rfl _
      rfl
  have hentries : ∀ e ∈ [("b", Json.double ⟨0x3ff8000000000000⟩), ("a", Json.int 1)],
      e.2.Proper fun x => x = ⟨0x3ff8000000000000⟩ := by
    simp only [List.forall_mem_cons, List.not_mem_nil, false_implies, implies_true, and_true]
    exact ⟨.double rfl, .int 1⟩
  have hswapped : ∀ e ∈ [("a", Json.int 1), ("b", Json.double ⟨0x3ff8000000000000⟩)],
      e.2.Proper fun x => x = ⟨0x3ff8000000000000⟩ := by
    simp only [List.forall_mem_cons, List.not_mem_nil, false_implies, implies_true, and_true]
    exact ⟨.int 1, .double rfl⟩
  refine (identifies hD (List.forall_mem_singleton.mpr (.obj (by decide) hentries))
    (List.forall_mem_singleton.mpr (.obj (by decide) hswapped))).2.1 ⟨rfl, ?_⟩
  exact .cons (.obj (.swap _ _ _) (.cons (.int 1) (.cons (.double _) .nil))) .nil

end IdempotencyKey

end Turnstile
