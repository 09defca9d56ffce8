import Turnstile.Proofs.Console.Inspection
import Turnstile.Proofs.Console.Listing
import Turnstile.Proofs.Job.CleanUp
import Turnstile.Proofs.Store.Footprint

/-!
# What commands do to the store

A command names at most one key that it may change. `Command.Does` says what each command does under
this key and what it prints; no call under another key can tell that it was run.
-/

namespace Turnstile

open Thread IdealEntry

namespace IdealEntry

variable {now : Instant} {key : String} {M : Finset SetMember} {d : Option Instant}

theorem respond_setCount (now : Instant) (key : String) :
    respond now (ofSet? M d) (.setCount key) = (.ok M.card, ofSet? M d) := by
  unfold ofSet?
  split
  · next h =>
    subst h
    rfl
  · rfl

theorem respond_of_error {e : Option IdealEntry} {c : StoreCall} {f : Fault}
    (hf : (respond now e c).1 = .error f) : (respond now e c).2 = e := by
  cases c <;> rcases e with _ | ⟨value | ms, d⟩ <;>
    simp only [respond, reduceCtorEq] at hf ⊢ <;> split at hf <;> cases hf

/-- Under a key there is a set with members or nothing, or a text, or a set without members. -/
theorem kinds (e : Option IdealEntry) : (∃ M d, e = ofSet? M d) ∨
    (∃ value d, e = some ⟨.text value, d⟩) ∨ ∃ d, e = some ⟨.set ∅, d⟩ := by
  rcases e with _ | ⟨value | M, d⟩
  · exact Or.inl ⟨∅, none, rfl⟩
  · exact Or.inr (Or.inl ⟨value, d, rfl⟩)
  · by_cases hM : M = ∅
    · exact Or.inr (Or.inr ⟨d, by rw [hM]⟩)
    · exact Or.inl ⟨M, d, (if_neg hM).symm⟩

end IdealEntry

namespace Console

variable {Q ρ : Type} {h : Host Q ρ} {p : Printed} {t : Scene Q ρ} {now : Instant} {V : IdealStore}

/-! ### Calls on a quiet machine -/

theorem yields_answer {c : StoreCall} {answer : Except Fault c.Answer} {e : Option IdealEntry}
    {post : Except Fault c.Answer → Scene Q ρ → Prop} (ht : t.machine.Stands True now V)
    (hr : respond now (V c.key) c = (answer, e))
    (hp : ∀ t', t'.machine.Stands True now (Function.update V c.key (e.filter fun e => e.isLive now)) →
      post answer t') :
    Yields h (callStore c : Attempt (Thread Q ρ) c.Answer).run post t := by
  obtain rfl : (respond now (V c.key) c).1 = answer := congrArg Prod.fst hr
  obtain rfl : (respond now (V c.key) c).2 = e := congrArg Prod.snd hr
  refine yields_call ht ?_ ?_
  · intro f t' hrefused ht' _
    have hf := hrefused trivial
    rw [← hf]
    apply hp
    rw [respond_of_error hf, ht.live, Function.update_eq_self]
    exact ht'
  · intro a t' ha ht' _
    rw [← ha]
    exact hp t' ht'

theorem yields_look {c : StoreCall} {answer : Except Fault c.Answer}
    {post : Except Fault c.Answer → Scene Q ρ → Prop} (hc : c.Reads)
    (ht : t.machine.Stands True now V) (hr : (respond now (V c.key) c).1 = answer)
    (hp : ∀ t', t'.machine.Stands True now V → post answer t') :
    Yields h (callStore c : Attempt (Thread Q ρ) c.Answer).run post t := by
  refine yields_answer ht (Prod.ext hr (respond_of_reads hc now _)) fun t' ht' => hp t' ?_
  rw [ht.live, Function.update_eq_self] at ht'
  exact ht'

/-! ### Listing -/

/-- How it ends to list a set, by the answer of the store. -/
def listingEnd (format : Format) (now : Instant) (limit : Nat) (p : Printed) :
    Except Fault (List SetMember) → Except Trouble Unit × Printed
  | .ok members => (.ok (), p.addOut (listedText format ((members.take limit).map (Row.of now))))
  | .error f => (.error (.fault f), p)

theorem prints_listRunning {answer : Except Fault (List SetMember)} (settings : Settings)
    (format : Format) (kind : String) (limit : Nat) (ht : t.machine.Stands True now V)
    (hm : (respond now (V (RunningSet.keyOf kind)) (.setMembers (RunningSet.keyOf kind))).1 = answer) :
    Prints h (listRunning settings format kind limit)
      (fun r p' _ => (r, p') = listingEnd format now limit p answer) p t := by
  refine prints_bind (prints_lift (yields_step ?_))
  rw [ht.clock]
  refine prints_bind (prints_attempt (yields_run_bind ?_))
  refine yields_look (c := .setMembers (RunningSet.keyOf kind)) trivial ht hm fun t' _ => ?_
  cases answer with
  | error f => rfl
  | ok members =>
    apply yields_run_pure
    apply prints_list
    simp only [listingEnd, listedText, ← List.map_take, List.map_map]
    rfl

/-! ### Pruning -/

def prunedText (format : Format) (kind : String) (removed left : Nat) : String :=
  match format with
  | .table => "[OK] " ++
      s!"Removed {removed} dead entries from {RunningSet.keyOf kind} ({left} still running)" ++ "\n"
  | format =>
    itemText format
      (.obj
        [ ("job_kind", .str kind), ("removed", Json.ofNat removed), ("running", Json.ofNat left) ])

theorem counts_inj {front middle back : String} {c d : Char} (hm : middle.toList.head? = some c)
    (hc : Text.isDigit c = false) (hb : back.toList.head? = some d) (hd : Text.isDigit d = false)
    {i i' j j' : Nat} (h : front ++ toString i ++ middle ++ toString j ++ back =
      front ++ toString i' ++ middle ++ toString j' ++ back) : i = i' ∧ j = j' := by
  have hl := congrArg String.toList h
  simp only [String.toList_append, List.append_assoc] at hl
  have hmiddle (rest : List Char) :
      ∀ x, (middle.toList ++ rest).head? = some x → Text.isDigit x = false := by
    intro x hx
    rw [List.head?_append, hm] at hx
    obtain rfl := Option.some.inj hx
    exact hc
  have hback : ∀ x, back.toList.head? = some x → Text.isDigit x = false := by
    intro x hx
    rw [hb] at hx
    obtain rfl := Option.some.inj hx
    exact hd
  obtain ⟨hi, hrest⟩ :=
    Text.toString_append_inj (hmiddle _) (hmiddle _) (List.append_cancel_left hl)
  exact ⟨hi, (Text.toString_append_inj hback hback (List.append_cancel_left hrest)).1⟩

/-- What is printed after pruning tells both numbers. -/
theorem prunedText_inj {format : Format} {kind : String} {removed left removed' left' : Nat}
    (h : prunedText format kind removed left = prunedText format kind removed' left') :
    removed = removed' ∧ left = left' := by
  have hint (n : Nat) : toString (n : Int) = toString n := rfl
  have hword (text : String) : toString text = text := rfl
  cases format with
  | table =>
    have htext (i j : Nat) : prunedText .table kind i j = "[OK] " ++ "Removed " ++ toString i ++
        (" dead entries from " ++ RunningSet.keyOf kind ++ " (") ++ toString j ++
        (" still running)" ++ "\n") := by
      simp only [prunedText, hword, String.append_assoc]
    rw [htext, htext] at h
    exact counts_inj (c := ' ') (d := ' ') (by simp) (by decide) (by simp) (by decide) h
  | json =>
    have htext (i j : Nat) : prunedText .json kind i j = "\x7b" ++ (Json.newLine 1 ++
        Json.quote "job_kind" ++ ": " ++ Json.quote kind ++ "," ++ Json.newLine 1 ++
        Json.quote "removed" ++ ": ") ++ toString i ++
        ("," ++ Json.newLine 1 ++ Json.quote "running" ++ ": ") ++ toString j ++
        (Json.newLine 0 ++ "\x7d" ++ "\n") := by
      simp only [prunedText, itemText, Json.renderPretty, Json.renderAt, Json.renderEntriesAt,
        Json.renderLeaf, Json.ofNat, hint, String.append_assoc]
    rw [htext, htext] at h
    exact counts_inj (c := ',') (d := '\n') (by simp) (by decide) (by simp [Json.newLine])
      (by decide) h
  | yaml =>
    have htext (i j : Nat) : prunedText .yaml kind i j = Yaml.inlineText "job_kind" ++ ":" ++ " " ++
        Yaml.textValue 1 kind ++ "\n" ++ Yaml.indentation 0 ++ Yaml.inlineText "removed" ++ ":" ++ " " ++
        toString i ++ ("\n" ++ Yaml.indentation 0 ++ Yaml.inlineText "running" ++ ":" ++ " ") ++
        toString j ++ "\n" := by
      simp only [prunedText, itemText, Yaml.render, Yaml.renderAt, Yaml.renderEntries,
        Yaml.renderValue, Yaml.leaf, Json.ofNat, hint, String.append_assoc]
    rw [htext, htext] at h
    exact counts_inj (c := '\n') (d := '\n') (by simp) (by decide) (by simp) (by decide) h

/-- The members of a set that a clean-up leaves in it. -/
def aliveOf (settings : Settings) (now : Instant) (V : IdealStore) (M : Finset SetMember) :
    Finset SetMember :=
  M.filter (V.Alive now settings.running.entryTtl (some settings.liveness))

/-- How it ends to prune a set. -/
def Pruned (settings : Settings) (format : Format) (kind : String) (now : Instant) (V : IdealStore)
    (M : Finset SetMember) (d : Option Instant) (p : Printed) :
    Except Trouble Unit → Printed → Scene Q ρ → Prop
  | .ok (), p', t' =>
    t'.machine.Stands True now
        (Function.update V (RunningSet.keyOf kind) (ofSet? (aliveOf settings now V M) d)) ∧
      ∃ removed, removed + (aliveOf settings now V M).card = M.card ∧
        p' = p.addOut (prunedText format kind removed (aliveOf settings now V M).card)
  | .error _, p', t' =>
    (∃ left, aliveOf settings now V M ⊆ left ∧ left ⊆ M ∧
        t'.machine.Stands True now (Function.update V (RunningSet.keyOf kind) (ofSet? left d))) ∧
      p' = p ∧ ∃ x ∈ M, ∃ ms e, V (Liveness.key x.member) = some ⟨.set ms, e⟩

theorem prints_pruned {post : Except Trouble Unit → Printed → Scene Q ρ → Prop} {removed left : Nat}
    {settings : Settings} {format : Format} {kind : String}
    (hp : post (.ok ()) (p.addOut (prunedText format kind removed left)) t) :
    Prints h
      (match format with
      | .table =>
        Session.success (m := Thread Q ρ)
          s!"Removed {removed} dead entries from {(runningSet settings kind : RunningSet (Thread Q ρ)).key} ({left} still running)"
      | format =>
        Session.item format
          (.obj
            [ ("job_kind", .str kind), ("removed", Json.ofNat removed),
              ("running", Json.ofNat left) ])) post p t := by
  cases format with
  | table => exact prints_line hp
  | json => exact prints_item hp
  | yaml => exact prints_item hp

theorem prints_pruneRunning_of_set {M : Finset SetMember} {d : Option Instant} (settings : Settings)
    (format : Format) (kind : String) (ht : t.machine.Stands True now V)
    (hnow : now.Representable) (hadded : ∀ x ∈ M, x.addedAt.Representable)
    (hv : V (RunningSet.keyOf kind) = ofSet? M d) :
    Prints h (pruneRunning settings format kind) (Pruned settings format kind now V M d p) p t := by
  have hinj : Set.InjOn SetMember.member (M : Set SetMember) := by
    rw [← ht.view] at hv
    exact MemoryStore.member_inj ht.listed hv
  have hswept : Yields h (runningSet settings kind).cleanUp.run
      ((runningSet settings kind).Swept (some settings.liveness) True now V M d t.faults) t :=
    RunningSet.yields_cleanUp rfl hinj hnow hadded ht hv
  refine prints_bind (prints_attempt (hswept.mono ?_))
  rintro (f | removed) t₁ hs
  · obtain ⟨hleft, c, _, _, hset⟩ := hs
    exact ⟨hleft, rfl, hset trivial⟩
  · obtain ⟨ht₁, _, hcount⟩ := hs
    refine prints_bind (prints_attempt ?_)
    have hleft : (respond now (Function.update V (RunningSet.keyOf kind)
        (ofSet? (aliveOf settings now V M) d) (RunningSet.keyOf kind))
        (.setCount (RunningSet.keyOf kind))).1 = .ok (aliveOf settings now V M).card := by
      rw [Function.update_self, respond_setCount]
    refine yields_look (c := .setCount (RunningSet.keyOf kind)) trivial ht₁ hleft fun t₂ ht₂ => ?_
    apply prints_pruned
    exact ⟨ht₂, removed, hcount, rfl⟩

/-- A set without members is left as it is. -/
theorem prints_pruneRunning_of_empty {d : Option Instant} (settings : Settings) (format : Format)
    (kind : String) (ht : t.machine.Stands True now V)
    (hv : V (RunningSet.keyOf kind) = some ⟨.set ∅, d⟩) :
    Prints h (pruneRunning settings format kind) (fun r p' t' => t'.machine.Stands True now V ∧
      r = .ok () ∧ p' = p.addOut (prunedText format kind 0 0)) p t := by
  have hmembers : (respond now (V (RunningSet.keyOf kind)) (.setMembers (RunningSet.keyOf kind))).1 =
      .ok [] := by
    rw [hv]
    exact congrArg Except.ok (Finset.sort_empty _)
  have hcount : (respond now (V (RunningSet.keyOf kind)) (.setCount (RunningSet.keyOf kind))).1 =
      .ok 0 := by
    rw [hv]
    rfl
  refine prints_bind (prints_attempt (yields_run_bind ?_))
  refine yields_look (c := .setMembers (RunningSet.keyOf kind)) trivial ht hmembers fun t₁ ht₁ => ?_
  refine yields_run_pure (prints_bind (prints_attempt ?_))
  refine yields_look (c := .setCount (RunningSet.keyOf kind)) trivial ht₁ hcount fun t₂ ht₂ => ?_
  apply prints_pruned
  exact ⟨ht₂, rfl, rfl⟩

/-- A text under the key of the set makes the command fail. -/
theorem prints_pruneRunning_of_text {value : String} {d : Option Instant} (settings : Settings)
    (format : Format) (kind : String) (ht : t.machine.Stands True now V)
    (hv : V (RunningSet.keyOf kind) = some ⟨.text value, d⟩) :
    Prints h (pruneRunning settings format kind) (fun r p' t' => t'.machine.Stands True now V ∧
      r = .error (.fault (Fault.wrongKindOfValue (RunningSet.keyOf kind))) ∧ p' = p) p t := by
  have hmembers : (respond now (V (RunningSet.keyOf kind)) (.setMembers (RunningSet.keyOf kind))).1 =
      .error (Fault.wrongKindOfValue (RunningSet.keyOf kind)) := by
    rw [hv]
    rfl
  refine prints_bind (prints_attempt (yields_run_bind ?_))
  refine yields_look (c := .setMembers (RunningSet.keyOf kind)) trivial ht hmembers fun t₁ ht₁ => ?_
  exact ⟨ht₁, rfl, rfl⟩

/-! ### Releasing and clearing -/

def releasedText (format : Format) (key : String) (released : Bool) : String :=
  match format, released with
  | .table, true => "[OK] " ++ s!"Released {key}" ++ "\n"
  | .table, false => "[INFO] " ++ s!"{key} was not held by that token" ++ "\n"
  | format, released => itemText format (.obj [("key", .str key), ("released", .bool released)])

def clearedText (format : Format) (key : String) (deleted : Bool) : String :=
  match format, deleted with
  | .table, true => "[OK] " ++ s!"Deleted {key}" ++ "\n"
  | .table, false => "[INFO] " ++ s!"No record at {key}" ++ "\n"
  | format, deleted => itemText format (.obj [("deleted", .bool deleted), ("key", .str key)])

/-- No success reads like a remark. -/
theorem success_ne_info (done remark : String) : "[OK] " ++ done ≠ "[INFO] " ++ remark := by
  intro he
  have hmark := congrArg (fun text : String => text.toList.drop 1 |>.head?) he
  simp only [String.toList_append] at hmark
  cases hmark

theorem injective_of_ne {text : Bool → String} (hne : text true ≠ text false) :
    Function.Injective text := by
  intro a b hab
  cases a with
  | true =>
    cases b with
    | true => rfl
    | false => exact absurd hab hne
  | false =>
    cases b with
    | true => exact absurd hab.symm hne
    | false => rfl

theorem releasedText_injective (format : Format) (key : String) :
    Function.Injective (releasedText format key) := by
  apply injective_of_ne
  have hitem := itemText_ne format "released" [("key", .str key)] []
  cases format with
  | table =>
    simp only [releasedText, String.append_assoc]
    exact success_ne_info _ _
  | json => exact hitem
  | yaml => exact hitem

theorem clearedText_injective (format : Format) (key : String) :
    Function.Injective (clearedText format key) := by
  apply injective_of_ne
  have hitem := itemText_ne format "deleted" [] [("key", .str key)]
  cases format with
  | table =>
    simp only [clearedText, String.append_assoc]
    exact success_ne_info _ _
  | json => exact hitem
  | yaml => exact hitem

/-- Whether a key holds a token. -/
def holdsToken (V : IdealStore) (key token : String) : Bool :=
  (V key).any fun e => e.value = .text token

theorem prints_released {post : Except Trouble Unit → Printed → Scene Q ρ → Prop} {format : Format}
    {key : String} {released : Bool}
    (hp : post (.ok ()) (p.addOut (releasedText format key released)) t) :
    Prints h
      (match format, released with
      | .table, true => Session.success (m := Thread Q ρ) s!"Released {key}"
      | .table, false => Session.info s!"{key} was not held by that token"
      | format, released =>
        Session.item format (.obj [("key", .str key), ("released", .bool released)])) post p t := by
  cases format with
  | table =>
    cases released with
    | true => exact prints_line hp
    | false => exact prints_line hp
  | json => exact prints_item hp
  | yaml => exact prints_item hp

theorem prints_releaseLease_of_token {key token : String} (format : Format) (force : Bool)
    (ht : t.machine.Stands True now V) :
    Prints h (releaseLease format key (some token) force) (fun r p' t' => r = .ok () ∧
      p' = p.addOut (releasedText format key (holdsToken V key token)) ∧
      t'.machine.Stands True now
        (if holdsToken V key token then Function.update V key none else V)) p t := by
  apply prints_bind
  apply prints_attempt
  cases hheld : holdsToken V key token with
  | true =>
    have hr : respond now (V key) (.deleteIfEq key token) = (.ok true, none) := if_pos hheld
    refine yields_answer (c := .deleteIfEq key token) ht hr fun t' ht' => ?_
    apply prints_released
    exact ⟨rfl, rfl, ht'⟩
  | false =>
    have hr : respond now (V key) (.deleteIfEq key token) = (.ok false, V key) :=
      if_neg (ne_true_of_eq_false hheld)
    refine yields_answer (c := .deleteIfEq key token) ht hr fun t' ht' => ?_
    rw [StoreCall.key, ht.live, Function.update_eq_self] at ht'
    apply prints_released
    exact ⟨rfl, rfl, ht'⟩

theorem prints_releaseLease_of_force {key : String} (format : Format)
    (ht : t.machine.Stands True now V) :
    Prints h (releaseLease format key none true) (fun r p' t' => r = .ok () ∧
      p' = (p.addErr ("[WARN] " ++ s!"Force-releasing {key}" ++ "\n")).addOut
        (releasedText format key (V key).isSome) ∧
      t'.machine.Stands True now (Function.update V key none)) p t := by
  apply prints_bind
  apply prints_warning
  apply prints_bind
  apply prints_attempt
  refine yields_answer (c := .delete key) ht rfl fun t' ht' => ?_
  apply prints_released
  exact ⟨rfl, rfl, ht'⟩

/-- The JSON value of an argument. -/
def argOf (text : String) : Except Trouble Json :=
  match Json.read? text with
  | none => .error (.message s!"Argument {text} is not valid JSON" none)
  | some v => .ok v

theorem prints_readArgs {post : Except Trouble (List Json) → Printed → Scene Q ρ → Prop}
    (args : List String) (hp : post (args.mapM argOf) p t) : Prints h (readArgs args) post p t := by
  induction args generalizing post with
  | nil => exact hp
  | cons text rest ih =>
    rw [List.mapM_cons] at hp
    unfold readArgs
    unfold argOf at hp
    cases hv : Json.read? text with
    | none =>
      rw [hv] at hp
      exact hp
    | some v =>
      rw [hv] at hp
      apply prints_bind
      apply ih
      cases hrest : rest.mapM argOf with
      | error e =>
        change post (rest.mapM argOf >>= fun vs => pure (v :: vs)) p t at hp
        rw [hrest] at hp
        exact hp
      | ok vs =>
        change post (rest.mapM argOf >>= fun vs => pure (v :: vs)) p t at hp
        rw [hrest] at hp
        exact hp

theorem prints_clearClaim_of_readable {kind : String} {args : List String} {vs : List Json}
    (format : Format) (hargs : args.mapM argOf = .ok vs) (ht : t.machine.Stands True now V) :
    Prints h (clearClaim format kind args) (fun r p' t' => r = .ok () ∧
      p' = p.addOut (clearedText format (IdempotencyKey.of kind vs)
        (V (IdempotencyKey.of kind vs)).isSome) ∧
      t'.machine.Stands True now (Function.update V (IdempotencyKey.of kind vs) none)) p t := by
  apply prints_bind
  apply prints_readArgs
  rw [hargs]
  apply prints_bind
  apply prints_attempt
  generalize hdeleted : (V (IdempotencyKey.of kind vs)).isSome = deleted
  have hr : respond now (V (IdempotencyKey.of kind vs)) (.delete (IdempotencyKey.of kind vs)) =
      (.ok deleted, none) := by
    rw [← hdeleted]
    rfl
  refine yields_answer (c := .delete (IdempotencyKey.of kind vs)) ht hr fun t' ht' => ?_
  cases format with
  | table =>
    cases deleted with
    | true => exact prints_line ⟨rfl, rfl, ht'⟩
    | false => exact prints_line ⟨rfl, rfl, ht'⟩
  | json => exact prints_item ⟨rfl, rfl, ht'⟩
  | yaml => exact prints_item ⟨rfl, rfl, ht'⟩

theorem prints_clearClaim_of_unreadable {kind : String} {args : List String} {e : Trouble}
    (format : Format) (hargs : args.mapM argOf = .error e) :
    Prints h (clearClaim format kind args) (fun r p' t' => r = .error e ∧ p' = p ∧ t' = t) p t := by
  apply prints_bind
  apply prints_readArgs
  rw [hargs]
  exact ⟨rfl, rfl, rfl⟩

end Console

end Turnstile
