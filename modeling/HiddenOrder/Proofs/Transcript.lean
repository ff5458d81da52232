import HiddenOrder.Proofs.Challenge

/-!
# What comes to stand on a transcript

A transcript is only written at its end: a text or a number by whoever says it, and every challenge
by the transcript itself.  So its entries after any course of operations are the ones before,
followed by what was written, and the challenges among them are known from what stood there when
they were asked for.

Each of them is the first acceptable value of a chain of digests, which starts with the digest of
all entries joined into one string.  Whether a value is acceptable depends on the kind of the
challenge and on the last entry, whoever wrote that one; what makes two challenges in a row differ is
that the last entry then is the first of them.

An entry is said when there is a text for it: the integers in it must not be too long, and no half
of a surrogate pair may be among its characters.  A run comes to a halt at the first entry that is
not.

* `Entry.Says`, `Entry.Mute` — the text of an entry, and why there is none.
* **`Entry.texts_eq_ok_iff`**, `Entry.texts_outcome` — several entries.
* `Transcript.link`, `Transcript.Acceptable` — the values of the chain, and which of them may be the
  next challenge.
* **`Transcript.challenge_eq_ok_iff`** — a challenge is the first acceptable one.
* `Transcript.Operation`, `Transcript.run` — what can be done with a transcript, and what comes of
  doing it.
* `Transcript.Operation.writes`, **`Transcript.entries_of_step`**, **`Transcript.entries_of_run`** —
  what is written.
* **`Transcript.run_outcome`** — how a run ends.
* **`Transcript.challenges_of_run`** — entries and challenges of any run.
-/

namespace HiddenOrder

/-! ## Entries -/

namespace Entry

/-- The integers in an entry. -/
def numbers : Entry → List ℤ
  | .text _ => []
  | .number n => [n]
  | .shown w => w.numbers

/-- The string of an entry, with every integer in decimal; none with half of a surrogate pair. -/
def spelling : Entry → Option String
  | .text s => some s
  | .number n => some (toString n)
  | .shown w => w.render.toString?

variable [DigitLimit] {e : Entry} {es : List Entry} {s : String} {ss : List String}

/-- The string is what the entry says. -/
def Says (e : Entry) (s : String) : Prop := (∀ n ∈ e.numbers, Writable n) ∧ e.spelling = some s

/-- Why an entry says nothing. -/
inductive Mute (e : Entry) : Fault → Prop
  /-- One of the integers in it is too long. -/
  | tooLong (h : ¬∀ n ∈ e.numbers, Writable n) : Mute e .longNumeral
  /-- One of its characters is half of a surrogate pair. -/
  | surrogate (hwritable : ∀ n ∈ e.numbers, Writable n) (h : e.spelling = none) :
      Mute e .unencodable

/-- An entry says something, or its fault comes instead. -/
lemma toText_outcome (e : Entry) :
    (∃ s, e.toText = .ok s ∧ e.Says s) ∨
      ∃ fault, e.toText = .error (.fault fault) ∧ e.Mute fault := by
  cases e with
  | text s => exact .inl ⟨s, rfl, List.forall_mem_nil _, rfl⟩
  | number n =>
      by_cases hn : Writable n
      · exact .inl ⟨_, Decimal.write_of_writable hn, List.forall_mem_singleton.mpr hn, rfl⟩
      · exact .inr ⟨_, Decimal.write_of_not_writable hn,
          .tooLong fun h => hn (List.forall_mem_singleton.mp h)⟩
  | shown w =>
      rw [toText, Wording.write_eq]
      by_cases hw : w.Fits
      · rw [if_pos hw, ok_bind]
        cases hs : w.render.toString? with
        | some s => exact .inl ⟨s, rfl, hw, hs⟩
        | none => exact .inr ⟨_, rfl, .surrogate hw hs⟩
      · rw [if_neg hw]
        exact .inr ⟨_, rfl, .tooLong hw⟩

lemma Mute.not_said {fault : Fault} (h : e.Mute fault) : ¬e.Says s := by
  rintro ⟨hwritable, hs⟩
  cases h with
  | tooLong hlong => exact hlong hwritable
  | surrogate _ hnone => simp [hnone] at hs

lemma toText_eq_ok_iff : e.toText = .ok s ↔ e.Says s := by
  obtain ⟨s', hs', hsaid⟩ | ⟨fault, hfault, hmute⟩ := toText_outcome e
  · rw [hs', Except.ok.injEq]
    constructor
    · rintro rfl
      exact hsaid
    · exact fun h => Option.some.inj (hsaid.2.symm.trans h.2)
  · rw [hfault]
    exact iff_of_false nofun hmute.not_said

/-- **Entries are said** when each of them says something. -/
theorem texts_eq_ok_iff :
    texts es = .ok ss ↔ (∀ e ∈ es, ∃ s, e.Says s) ∧ ss = es.filterMap spelling := by
  induction es generalizing ss with
  | nil =>
      rw [texts, Except.ok.injEq, eq_comm]
      exact (and_iff_right (List.forall_mem_nil _)).symm
  | cons e es ih =>
      rw [texts, bind_eq_ok, List.forall_mem_cons]
      constructor
      · rintro ⟨s, hs, h⟩
        obtain ⟨rest, hrest, h⟩ := bind_eq_ok.mp h
        cases h
        have hsaid := toText_eq_ok_iff.mp hs
        obtain ⟨hall, rfl⟩ := ih.mp hrest
        exact ⟨⟨⟨s, hsaid⟩, hall⟩, (List.filterMap_cons_some hsaid.2).symm⟩
      · rintro ⟨⟨⟨s, hsaid⟩, hall⟩, rfl⟩
        refine ⟨s, toText_eq_ok_iff.mpr hsaid, bind_eq_ok.mpr ⟨_, ih.mpr ⟨hall, rfl⟩, ?_⟩⟩
        rw [List.filterMap_cons_some hsaid.2]
        rfl

/-- They are said, or the fault of one of them comes instead. -/
lemma texts_outcome (es : List Entry) :
    (∃ ss, texts es = .ok ss) ∨
      ∃ e ∈ es, ∃ fault, e.Mute fault ∧ texts es = .error (.fault fault) := by
  induction es with
  | nil => exact .inl ⟨_, rfl⟩
  | cons e es ih =>
      obtain ⟨s, hs, -⟩ | ⟨fault, hfault, hmute⟩ := toText_outcome e
      · obtain ⟨ss, hss⟩ | ⟨e', he', fault, hmute, hfault⟩ := ih
        · exact .inl ⟨s :: ss, by rw [texts, hs, hss]; rfl⟩
        · exact .inr ⟨e', List.mem_cons_of_mem e he', fault, hmute, by
            rw [texts, hs, hfault]; rfl⟩
      · exact .inr ⟨e, List.mem_cons_self, fault, hmute, by rw [texts, hfault, error_bind]⟩

end Entry

namespace Transcript

variable {o : Oracles} {t t' : Transcript} {prime : Bool} {v : ℕ}

/-! ## Challenges -/

/-- The value `k` links down the chain: the entries are joined into one string, its UTF-8 form is
hashed, and its digest is hashed `k` times over. -/
def link (o : Oracles) (t : Transcript) (k : ℕ) : ℕ :=
  Bytes.bigEndian (Digest.repeated o.hash (k + 1) (String.join t.entries).toUTF8.data.toList)
    % t.bound

/-- Whether a value may be the next challenge: a prime if one is asked for, and not what the last
entry says. -/
def Acceptable (t : Transcript) (prime : Bool) (v : ℕ) : Prop :=
  (prime = true → v.Prime) ∧ t.entries.getLast? ≠ some (toString v)

/-- The value `k` links down the chain is the first acceptable one. -/
structure FirstAcceptable (o : Oracles) (t : Transcript) (prime : Bool) (k : ℕ) : Prop where
  acceptable : t.Acceptable prime (t.link o k)
  refused : ∀ j < k, ¬t.Acceptable prime (t.link o j)

lemma link_lt (o : Oracles) (t : Transcript) (k : ℕ) : t.link o k < t.bound :=
  Nat.mod_lt _ (Nat.lt_of_lt_of_le Nat.two_pos t.two_le_bound)

lemma link_eq (o : Oracles) (t : Transcript) (k : ℕ) :
    (Digest.iterate o.hash k (o.hash t.message)).toNat % t.bound = t.link o k := by
  rw [Digest.toNat_iterate, message, Bytes.flatMap_utf8, link]

lemma accepts_iff (hexact : ∀ n, o.isPrime n = true ↔ n.Prime) :
    t.accepts o prime v = true ↔ t.Acceptable prime v := by
  rw [accepts, Acceptable, Bool.and_eq_true, Bool.or_eq_true, bne_iff_ne, isPrime_int hexact,
    Int.toNat_natCast]
  refine and_congr_left fun _ => ?_
  cases prime with
  | true => simp
  | false => simp

/-- **A challenge is the first acceptable value of the chain**, if the walk gets there, and it is
written down. -/
theorem challenge_eq_ok_iff [DigitLimit] (hexact : ∀ n, o.isPrime n = true ↔ n.Prime) :
    t.challenge o prime = .ok (v, t') ↔
      t' = t.write (toString v) ∧ ∃ k < o.steps, t.FirstAcceptable o prime k ∧ t.link o k = v := by
  have hfirst (k : ℕ) : Digest.FirstAt o.hash (fun d => d.toNat % t.bound) (t.accepts o prime)
      (o.hash t.message) k ↔ t.FirstAcceptable o prime k := by
    have hrefused (j : ℕ) : t.accepts o prime (t.link o j) = false ↔
        ¬t.Acceptable prime (t.link o j) := by
      rw [← accepts_iff hexact, Bool.not_eq_true]
    constructor
    · rintro ⟨haccepted, hbefore⟩
      refine ⟨(accepts_iff hexact).mp (link_eq o t k ▸ haccepted), fun j hj => ?_⟩
      exact (hrefused j).mp (link_eq o t j ▸ hbefore j hj)
    · rintro ⟨haccepted, hbefore⟩
      refine ⟨(link_eq o t k).symm ▸ (accepts_iff hexact).mpr haccepted, fun j hj => ?_⟩
      exact (link_eq o t j).symm ▸ (hrefused j).mpr (hbefore j hj)
  rw [challenge_eq_ok_iff_search, and_comm, Digest.search_eq_ok_iff]
  simp only [hfirst, link_eq]

/-! ## Operations -/

/-- What can be done with a transcript, short of starting it anew. -/
inductive Operation where
  /-- One more entry. -/
  | append (entry : Entry)
  /-- More entries. -/
  | extend (entries : List Entry)
  /-- A challenge, which is a prime or any integer. -/
  | challenge (prime : Bool)

/-- The challenge that an operation gives, if it asks for one, and the transcript after it. -/
def step [DigitLimit] (o : Oracles) (t : Transcript) :
    Operation → Except Error (Option ℕ × Transcript)
  | .append entry => do
    let t ← t.append entry
    pure (none, t)
  | .extend entries => do
    let t ← t.extend entries
    pure (none, t)
  | .challenge prime => do
    let (v, t) ← t.challenge o prime
    pure (some v, t)

/-- One operation after another: the challenges that they give, and the transcript at the end. -/
def run [DigitLimit] (o : Oracles) :
    Transcript → List Operation → Except Error (List (Option ℕ) × Transcript)
  | t, [] => pure ([], t)
  | t, op :: ops => do
    let (answer, t) ← t.step o op
    let (answers, t) ← run o t ops
    pure (answer :: answers, t)

/-- What an operation is given to say. -/
def Operation.said : Operation → List Entry
  | .append entry => [entry]
  | .extend entries => entries
  | .challenge _ => []

/-- What an operation writes at the end of the transcript, when it gives this answer. -/
def Operation.writes (op : Operation) (answer : Option ℕ) : List String :=
  op.said.filterMap Entry.spelling ++ answer.toList.map toString

/-- What operations with these answers write. -/
def written (ops : List Operation) (answers : List (Option ℕ)) : List String :=
  (List.zipWith Operation.writes ops answers).flatten

variable {op : Operation} {ops : List Operation} {answer : Option ℕ} {answers : List (Option ℕ)}

lemma step_challenge_eq_ok [DigitLimit] : t.step o (.challenge prime) = .ok (answer, t') ↔
    ∃ v, answer = some v ∧ t.challenge o prime = .ok (v, t') := by
  rw [step, bind_eq_ok]
  constructor
  · rintro ⟨⟨v, t''⟩, hv, h⟩
    cases h
    exact ⟨v, rfl, hv⟩
  · rintro ⟨v, rfl, hv⟩
    exact ⟨(v, t'), hv, rfl⟩

/-- One entry is said as several are. -/
lemma append_eq_extend [DigitLimit] (t : Transcript) (entry : Entry) :
    t.append entry = t.extend [entry] := by
  rw [append, extend, Entry.texts]
  cases entry.toText <;> rfl

/-- An operation that is given something to say is an extension by that. -/
lemma step_eq_extend [DigitLimit] (hop : ∀ prime, op ≠ .challenge prime) :
    t.step o op = t.extend op.said >>= fun t => pure (none, t) := by
  cases op with
  | append entry => exact congrArg (· >>= _) (append_eq_extend t entry)
  | extend entries => rfl
  | challenge prime => exact absurd rfl (hop prime)

/-- **One operation writes at the end**, and leaves the bound as it is. -/
theorem entries_of_step [DigitLimit] (h : t.step o op = .ok (answer, t')) :
    (∀ entry ∈ op.said, ∃ s, entry.Says s) ∧
      t'.bound = t.bound ∧ t'.entries = t.entries ++ op.writes answer := by
  by_cases hop : ∃ prime, op = .challenge prime
  · obtain ⟨prime, rfl⟩ := hop
    obtain ⟨v, rfl, hv⟩ := step_challenge_eq_ok.mp h
    obtain ⟨-, rfl⟩ := challenge_eq_ok hv
    exact ⟨List.forall_mem_nil _, rfl, rfl⟩
  · rw [step_eq_extend (not_exists.mp hop), extend] at h
    obtain ⟨t₁, h₁, h⟩ := bind_eq_ok.mp h
    obtain ⟨ss, hss, h₁⟩ := bind_eq_ok.mp h₁
    cases h₁
    cases h
    obtain ⟨hsaid, rfl⟩ := Entry.texts_eq_ok_iff.mp hss
    exact ⟨hsaid, rfl, congrArg (t.entries ++ ·) (List.append_nil _).symm⟩

/-- An operation ends, or the walk for its challenge runs out of steps, or one of its entries says
nothing. -/
lemma step_outcome [DigitLimit] (o : Oracles) (t : Transcript) (op : Operation) :
    (∃ r, t.step o op = .ok r) ∨ t.step o op = .error .outOfSteps ∨
      ∃ entry ∈ op.said, ∃ fault, entry.Mute fault ∧ t.step o op = .error (.fault fault) := by
  by_cases hop : ∃ prime, op = .challenge prime
  · obtain ⟨prime, rfl⟩ := hop
    rw [step]
    obtain ⟨⟨v, t₁⟩, hv⟩ | hv := challenge_outcome o t prime
    · rw [hv]
      exact .inl ⟨_, rfl⟩
    · rw [hv]
      exact .inr (.inl rfl)
  · rw [step_eq_extend (not_exists.mp hop), extend]
    obtain ⟨ss, hss⟩ | ⟨entry, hmem, fault, hmute, hfault⟩ := Entry.texts_outcome op.said
    · rw [hss]
      exact .inl ⟨_, rfl⟩
    · rw [hfault]
      exact .inr (.inr ⟨entry, hmem, fault, hmute, rfl⟩)

/-- A run is its first operation, and a run of the others. -/
lemma run_cons_eq_ok [DigitLimit] : t.run o (op :: ops) = .ok (answers, t') ↔
    ∃ answer t₁ later, t.step o op = .ok (answer, t₁) ∧ t₁.run o ops = .ok (later, t') ∧
      answers = answer :: later := by
  rw [run, bind_eq_ok]
  constructor
  · rintro ⟨⟨answer, t₁⟩, hstep, h⟩
    obtain ⟨⟨later, t₂⟩, hrun, h⟩ := bind_eq_ok.mp h
    cases h
    exact ⟨answer, t₁, later, hstep, hrun, rfl⟩
  · rintro ⟨answer, t₁, later, hstep, hrun, rfl⟩
    exact ⟨(answer, t₁), hstep, bind_eq_ok.mpr ⟨(later, t'), hrun, rfl⟩⟩

/-- **What a run writes** is what its operations write. -/
theorem entries_of_run [DigitLimit] (h : t.run o ops = .ok (answers, t')) :
    (∀ entry ∈ ops.flatMap Operation.said, ∃ s, entry.Says s) ∧
      t'.bound = t.bound ∧ t'.entries = t.entries ++ written ops answers := by
  induction ops generalizing t answers with
  | nil =>
      cases h
      exact ⟨List.forall_mem_nil _, rfl, (List.append_nil _).symm⟩
  | cons op ops ih =>
      obtain ⟨answer, t₁, later, hstep, hrun, rfl⟩ := run_cons_eq_ok.mp h
      obtain ⟨hsaid, hbound, hentries⟩ := entries_of_step hstep
      obtain ⟨hsaid', hbound', hentries'⟩ := ih hrun
      refine ⟨List.forall_mem_append.mpr ⟨hsaid, hsaid'⟩, hbound'.trans hbound, ?_⟩
      rw [hentries', hentries, List.append_assoc]
      rfl

/-- A run of two parts is a run of the first and, from where it ends, a run of the second. -/
lemma run_append [DigitLimit] {before after : List Operation}
    (h : t.run o (before ++ after) = .ok (answers, t')) :
    ∃ given t₁ later, t.run o before = .ok (given, t₁) ∧ t₁.run o after = .ok (later, t') ∧
      given.length = before.length ∧ answers = given ++ later := by
  induction before generalizing t answers with
  | nil => exact ⟨[], t, answers, rfl, h, rfl, rfl⟩
  | cons op before ih =>
      obtain ⟨answer, t₁, rest, hstep, hrun, rfl⟩ := run_cons_eq_ok.mp h
      obtain ⟨given, t₂, later, hbefore, hafter, hlength, rfl⟩ := ih hrun
      exact ⟨answer :: given, t₂, later, run_cons_eq_ok.mpr ⟨answer, t₁, given, hstep, hbefore, rfl⟩,
        hafter, congrArg (· + 1) hlength, rfl⟩

/-- **A run ends**, or a walk for one of its challenges runs out of steps, or one of its entries
says nothing. -/
theorem run_outcome [DigitLimit] (o : Oracles) (t : Transcript) (ops : List Operation) :
    (∃ r, t.run o ops = .ok r) ∨ t.run o ops = .error .outOfSteps ∨
      ∃ entry ∈ ops.flatMap Operation.said, ∃ fault, entry.Mute fault ∧
        t.run o ops = .error (.fault fault) := by
  induction ops generalizing t with
  | nil => exact .inl ⟨_, rfl⟩
  | cons op ops ih =>
      rw [run, List.flatMap_cons]
      obtain ⟨⟨answer, t₁⟩, h⟩ | h | ⟨entry, hmem, fault, hmute, h⟩ := step_outcome o t op
      · rw [h, ok_bind]
        dsimp only
        obtain ⟨⟨later, t₂⟩, h⟩ | h | ⟨entry, hmem, fault, hmute, h⟩ := ih t₁
        · rw [h]
          exact .inl ⟨_, rfl⟩
        · rw [h]
          exact .inr (.inl rfl)
        · rw [h]
          exact .inr (.inr ⟨entry, List.mem_append_right _ hmem, fault, hmute, rfl⟩)
      · rw [h]
        exact .inr (.inl rfl)
      · rw [h]
        exact .inr (.inr ⟨entry, List.mem_append_left _ hmem, fault, hmute, rfl⟩)

/-! ## Runs -/

/-- A run that begins with a challenge goes on with the challenge written down. -/
lemma run_challenge_cons [DigitLimit] (h : t.run o (.challenge prime :: ops) = .ok (answers, t')) :
    ∃ v later, t.challenge o prime = .ok (v, t.write (toString v)) ∧
      (t.write (toString v)).run o ops = .ok (later, t') ∧ answers = some v :: later := by
  obtain ⟨answer, t₁, later, hstep, hrun, rfl⟩ := run_cons_eq_ok.mp h
  obtain ⟨v, rfl, hv⟩ := step_challenge_eq_ok.mp hstep
  obtain rfl := (challenge_eq_ok hv).2
  exact ⟨v, later, hv, hrun, rfl⟩

/-- **A challenge is never the one before it**, of whichever kinds they are: the last entry is the
one before it. -/
theorem challenge_ne [DigitLimit] {prime' : Bool} {v' : ℕ} (h : t.challenge o prime = .ok (v, t'))
    {t'' : Transcript} (h' : t'.challenge o prime' = .ok (v', t'')) : v ≠ v' := by
  rintro rfl
  obtain ⟨-, rfl⟩ := challenge_eq_ok h
  have haccept := (challenge_eq_ok h').1
  rw [accepts, Bool.and_eq_true, bne_iff_ne] at haccept
  exact haccept.2 (List.getLast?_concat ..)

/-- **Entries and challenges of any run.**  A transcript has any entries and any bound of at least
two, and a run does with it whatever it likes, in any order; it ends, unless a walk for a challenge
has no acceptable value to offer within the steps, or something is to be said for which there is no
text.

When it ends, everything was said.  At every point of it there stand the entries of the beginning
and after them what was written up to that point, and the rest of the run writes behind them.  A
challenge of the run is below the bound, a prime if one was asked for, the first acceptable value of
the chain that starts with the digest of the entries at that point, joined into one string, and
written down behind these.  Two challenges that follow one another differ. -/
theorem challenges_of_run [DigitLimit] (hexact : ∀ n, o.isPrime n = true ↔ n.Prime) (t : Transcript)
    (ops : List Operation) :
    ((∃ r, t.run o ops = .ok r) ∨ t.run o ops = .error .outOfSteps ∨
      ∃ entry ∈ ops.flatMap Operation.said, ∃ fault, entry.Mute fault ∧
        t.run o ops = .error (.fault fault)) ∧
    ∀ answers t', t.run o ops = .ok (answers, t') →
      (∀ entry ∈ ops.flatMap Operation.said, ∃ s, entry.Says s) ∧
      (∀ before after, ops = before ++ after → ∃ given t₁ later,
        t.run o before = .ok (given, t₁) ∧ t₁.run o after = .ok (later, t') ∧
        given.length = before.length ∧ answers = given ++ later ∧ t₁.bound = t.bound ∧
        t₁.entries = t.entries ++ written before given ∧
        t'.entries = t₁.entries ++ written after later) ∧
      (∀ before prime after, ops = before ++ .challenge prime :: after → ∃ given t₁ v later,
        t.run o before = .ok (given, t₁) ∧
        given.length = before.length ∧ answers = given ++ some v :: later ∧
        t'.entries = t₁.entries ++ toString v :: written after later ∧
        v < t.bound ∧ (prime = true → v.Prime) ∧
        ∃ k, t₁.FirstAcceptable o prime k ∧ t₁.link o k = v) ∧
      ∀ before prime prime' after, ops = before ++ .challenge prime :: .challenge prime' :: after →
        ∃ given v v' later, given.length = before.length ∧
          answers = given ++ some v :: some v' :: later ∧ v ≠ v' := by
  refine ⟨run_outcome o t ops, fun answers t' h => ⟨(entries_of_run h).1, ?_, ?_, ?_⟩⟩
  · rintro before after rfl
    obtain ⟨given, t₁, later, hbefore, hafter, hlength, rfl⟩ := run_append h
    obtain ⟨-, hbound, hentries⟩ := entries_of_run hbefore
    exact ⟨given, t₁, later, hbefore, hafter, hlength, rfl, hbound, hentries,
      (entries_of_run hafter).2.2⟩
  · rintro before prime after rfl
    obtain ⟨given, t₁, rest, hbefore, hrest, hlength, rfl⟩ := run_append h
    obtain ⟨v, later, hv, hafter, rfl⟩ := run_challenge_cons hrest
    obtain ⟨-, k, -, hfirst, rfl⟩ := (challenge_eq_ok_iff hexact).mp hv
    refine ⟨given, t₁, t₁.link o k, later, hbefore, hlength, rfl, ?_, ?_, ?_, k, hfirst, rfl⟩
    · rw [(entries_of_run hafter).2.2]
      exact List.append_assoc ..
    · rw [← (entries_of_run hbefore).2.1]
      exact link_lt o t₁ k
    · exact hfirst.acceptable.1
  · rintro before prime prime' after rfl
    obtain ⟨given, t₁, rest, -, hrest, hlength, rfl⟩ := run_append h
    obtain ⟨v, rest', hv, hrest', rfl⟩ := run_challenge_cons hrest
    obtain ⟨v', later, hv', -, rfl⟩ := run_challenge_cons hrest'
    exact ⟨given, v, v', later, hlength, rfl, challenge_ne hv hv'⟩

/-- Oracles with a digest that tells the parity of the length, and an exact test. -/
def exactParityOracles : Oracles := { parityOracles with isPrime := fun n => decide n.Prime }

/-- A transcript of one text. -/
def shortTranscript : Transcript := ⟨["ab"], 100, by decide⟩

open Unlimited in
/-- Three is said, and then the digest of the entries, whose length is odd, gives three as well: so
the first challenge is five.  Two more follow, one of each kind. -/
theorem challenges_of_run_short :
    (∀ n, exactParityOracles.isPrime n = true ↔ n.Prime) ∧
    shortTranscript.run exactParityOracles
      [.append (.number 3), .challenge true, .extend [.text "x"], .challenge true, .challenge false]
      = .ok ([none, some 5, none, some 3, some 5],
        ⟨["ab", "3", "5", "x", "3", "5"], 100, by decide⟩) ∧
    (∃ k, (shortTranscript.write "3").FirstAcceptable exactParityOracles true k ∧
      (shortTranscript.write "3").link exactParityOracles k = 5) ∧
    ∃ given v v' later, given.length = 3 ∧
      [none, some 5, none, some 3, some 5] = given ++ some v :: some v' :: later ∧ v ≠ v' := by
  have hexact : ∀ n, exactParityOracles.isPrime n = true ↔ n.Prime := fun n => decide_eq_true_iff
  have hrun : shortTranscript.run exactParityOracles
      [.append (.number 3), .challenge true, .extend [.text "x"], .challenge true, .challenge false]
      = .ok ([none, some 5, none, some 3, some 5],
        ⟨["ab", "3", "5", "x", "3", "5"], 100, by decide⟩) :=
    toOption_eq_some.mp (by decide +kernel)
  obtain ⟨-, -, hchallenge, hconsecutive⟩ :=
    (challenges_of_run hexact shortTranscript _).2 _ _ hrun
  refine ⟨hexact, hrun, ?_, hconsecutive [_, _, _] true false [] rfl⟩
  obtain ⟨given, t₁, v, later, hbefore, hlength, hanswers, -, -, -, hfirst⟩ :=
    hchallenge [_] true _ rfl
  cases hbefore
  obtain ⟨rfl, -⟩ : 5 = v ∧ _ = later := by simpa using hanswers
  exact hfirst

end Transcript

end HiddenOrder
