import HiddenOrder.Proofs.Ends

/-!
# How a race is decided

Everything that a race can go wrong with is who writes into its slot, and when.  The token settles
the first: it takes one offer, and once it has taken one, or has been called off, nothing that is
done to it changes anything.

When workers run to their ends one after another, in the order in which they are submitted, the
second is a matter of which of them are started at all.  To see that, every worker notes its number
and its end in a book.  The notes change nothing, and the race can be read off the book: nobody is
started after a worker that has found something; what is found is returned unless somebody failed;
and when somebody failed, it is with such a failure that the race ends.  What a worker finds may be
anything, zero or an empty list included.

* `Token.Call`, `Token.after` — what is done to a token, and what it has become.
* **`Token.count_successes_le`**, **`Token.offer_after_cancel`**, **`Token.after_decided`** — one
  offer succeeds at most, none after a cancellation, and nothing changes after either.
* `Book`, `noted` — the notes of a race, and a search that makes them.
* `InTurn` — notes of workers that were started in order, until one of them found something.
* **`race_noted`** — a race and its book.
* **`race_decided`** — who is started, and what the race ends with.
-/

namespace HiddenOrder

/-! ## Tokens -/

namespace Token

variable {α : Type} {t : Token α}

/-- What can be done to a token. -/
inductive Call (α : Type) where
  /-- A value is offered. -/
  | offer (value : α)
  /-- The race is called off. -/
  | cancel

/-- Whether a call is an offer that succeeds, and the token after it. -/
def call (t : Token α) : Call α → Bool × Token α
  | .offer value => t.offer value
  | .cancel => (false, t.cancel)

/-- The token after some calls. -/
def after (t : Token α) (calls : List (Call α)) : Token α := calls.foldl (fun t c => (t.call c).2) t

/-- For each of some calls, whether it is an offer that succeeds. -/
def successes (t : Token α) : List (Call α) → List Bool
  | [] => []
  | c :: calls => (t.call c).1 :: (t.call c).2.successes calls

/-- Every call ends the race, if it was not over. -/
lemma cancelled_call (t : Token α) (c : Call α) : (t.call c).2.cancelled = true := by
  cases c with
  | cancel => rfl
  | offer value =>
      rw [call, offer]
      by_cases h : t.cancelled = true
      · rw [if_pos h]
        exact h
      · rw [if_neg h]

/-- A race that is over is not touched any more. -/
lemma call_of_cancelled (h : t.cancelled = true) (c : Call α) : t.call c = (false, t) := by
  obtain ⟨cancelled, winner⟩ := t
  obtain rfl : cancelled = true := h
  cases c with
  | offer value => rfl
  | cancel => rfl

lemma after_of_cancelled (h : t.cancelled = true) (calls : List (Call α)) : t.after calls = t := by
  induction calls with
  | nil => rfl
  | cons c calls ih =>
      rw [after, List.foldl_cons, call_of_cancelled h]
      exact ih

lemma successes_of_cancelled (h : t.cancelled = true) (calls : List (Call α)) :
    (t.successes calls).count true = 0 := by
  induction calls with
  | nil => rfl
  | cons c calls ih =>
      rw [successes, call_of_cancelled h]
      exact ih

lemma after_append (t : Token α) (calls later : List (Call α)) :
    t.after (calls ++ later) = (t.after calls).after later := List.foldl_append

/-- After a call, nothing that follows changes the token. -/
lemma after_append_cons (t : Token α) (before : List (Call α)) (c : Call α)
    (later : List (Call α)) :
    t.after (before ++ c :: later) = ((t.after before).call c).2 := by
  rw [after_append]
  exact after_of_cancelled (cancelled_call _ c) later

/-- **At most one offer succeeds.** -/
theorem count_successes_le (t : Token α) (calls : List (Call α)) :
    (t.successes calls).count true ≤ 1 := by
  cases calls with
  | nil => exact Nat.zero_le 1
  | cons c calls =>
      -- only the first call can be a success, since it ends the race
      have hrest := successes_of_cancelled (cancelled_call t c) calls
      rw [successes, List.count_cons, hrest]
      split_ifs <;> omega

/-- **No offer succeeds after a cancellation.** -/
theorem offer_after_cancel (t : Token α) (before between : List (Call α)) (value : α) :
    ((t.after (before ++ .cancel :: between)).offer value).1 = false := by
  rw [after_append_cons]
  exact congrArg Prod.fst (call_of_cancelled (cancelled_call _ .cancel) (.offer value))

/-- **After the first success or cancellation nothing changes**, and a success leaves its value. -/
theorem after_decided (t : Token α) (before : List (Call α)) (c : Call α) (later : List (Call α)) :
    t.after (before ++ c :: later) = t.after (before ++ [c]) ∧
      ∀ value, c = .offer value → ((t.after before).call c).1 = true →
        (t.after (before ++ c :: later)).winner = some value := by
  rw [after_append_cons, after_append_cons]
  refine ⟨rfl, ?_⟩
  rintro value rfl hsuccess
  rw [call, offer] at hsuccess ⊢
  by_cases h : (t.after before).cancelled = true
  · rw [if_pos h] at hsuccess
    cases hsuccess
  · rw [if_neg h]

end Token

/-! ## Books -/

section

variable {ε σ τ α : Type}

/-- The notes of a race: the workers that were started, in order, and how each of them ended. -/
abbrev Book (ε α : Type) := List (ℕ × Except ε (Option α))

/-- A search whose workers note their numbers and their ends. -/
def noted (search : ℕ → ℕ → EStateM ε σ (Option α)) (worker workers : ℕ) :
    EStateM ε (Book ε α × σ) (Option α) := fun (book, s) =>
  match search worker workers s with
  | .ok found s => .ok found (book ++ [(worker, .ok found)], s)
  | .error e s => .error e (book ++ [(worker, .error e)], s)

/-- The end of a run without its notes. -/
def withoutNotes : EStateM.Result ε (Book ε α × σ) α → EStateM.Result ε σ α
  | .ok value (_, s) => .ok value s
  | .error e (_, s) => .error e s

/-- The notes of a race. -/
def raceBook (search : ℕ → ℕ → EStateM ε σ (Option α)) (workers : ℤ) (exhausted : ε) (s : σ) :
    Book ε α := (endState (race (noted search) workers exhausted ([], s))).1

namespace Book

variable {book : Book ε α} {worker : ℕ} {value : α} {e : ε}

/-- What the first worker to find something found. -/
def winner (book : Book ε α) : Option α := book.findSome? fun entry => entry.2.toOption.join

/-- What the first worker to fail failed with. -/
def failure (book : Book ε α) : Option ε :=
  book.findSome? fun entry => entry.2.casesOn some fun _ => none

/-- The end of a race with such notes. -/
def settle (book : Book ε α) (exhausted : ε) (t : τ) : EStateM.Result ε τ α :=
  match book.failure, book.winner with
  | some e, _ => .error e t
  | none, some value => .ok value t
  | none, none => .error exhausted t

@[simp] lemma winner_nil : winner ([] : Book ε α) = none := rfl
@[simp] lemma failure_nil : failure ([] : Book ε α) = none := rfl

@[simp] lemma winner_some (worker : ℕ) (value : α) (book : Book ε α) :
    winner ((worker, .ok (some value)) :: book) = some value := rfl

@[simp] lemma winner_none (worker : ℕ) (book : Book ε α) :
    winner ((worker, .ok none) :: book) = book.winner := rfl

@[simp] lemma winner_error (worker : ℕ) (e : ε) (book : Book ε α) :
    winner ((worker, .error e) :: book) = book.winner := rfl

@[simp] lemma failure_ok (worker : ℕ) (found : Option α) (book : Book ε α) :
    failure ((worker, .ok found) :: book) = book.failure := rfl

@[simp] lemma failure_error (worker : ℕ) (e : ε) (book : Book ε α) :
    failure ((worker, .error e) :: book) = some e := rfl

lemma endState_settle (book : Book ε α) (exhausted : ε) (t : τ) :
    endState (book.settle exhausted t) = t := by
  rw [settle]
  split <;> rfl

lemma withoutNotes_settle (book : Book ε α) (exhausted : ε) (s : σ) :
    withoutNotes (book.settle exhausted (book, s)) = book.settle exhausted s := by
  rw [settle, settle]
  cases book.failure with
  | some e => rfl
  | none => cases book.winner with
    | some value => rfl
    | none => rfl

lemma winner_eq_none : book.winner = none ↔ ∀ worker value, (worker, .ok (some value)) ∉ book := by
  rw [winner, List.findSome?_eq_none_iff]
  constructor
  · intro h worker value hmem
    cases h _ hmem
  · rintro h ⟨worker, end'⟩ hmem
    cases end' with
    | error e => rfl
    | ok found =>
        cases found with
        | none => rfl
        | some value => exact absurd hmem (h worker value)

lemma failure_eq_none : book.failure = none ↔ ∀ worker e, (worker, .error e) ∉ book := by
  rw [failure, List.findSome?_eq_none_iff]
  constructor
  · intro h worker e hmem
    cases h _ hmem
  · rintro h ⟨worker, end'⟩ hmem
    cases end' with
    | ok found => rfl
    | error e => exact absurd hmem (h worker e)

lemma mem_of_failure (h : book.failure = some e) : ∃ worker, (worker, .error e) ∈ book := by
  obtain ⟨⟨worker, end'⟩, hmem, hend⟩ := List.exists_of_findSome?_eq_some h
  cases end' with
  | ok found => cases hend
  | error e' =>
      cases hend
      exact ⟨worker, hmem⟩

end Book

/-! ## Workers in turn -/

/-- Notes of workers that were started in the given order, one after another, until one of them
found something. -/
inductive InTurn : List ℕ → Book ε α → Prop
  | nobody : InTurn [] []
  | found (worker : ℕ) (value : α) (rest : List ℕ) :
      InTurn (worker :: rest) [(worker, .ok (some value))]
  | next {worker : ℕ} {ending : Except ε (Option α)} {rest : List ℕ} {book : Book ε α}
      (hending : ∀ value, ending ≠ .ok (some value)) (h : InTurn rest book) :
      InTurn (worker :: rest) ((worker, ending) :: book)

namespace InTurn

variable {workers : List ℕ} {book : Book ε α} {worker : ℕ} {value : α}

lemma started (h : InTurn workers book) : book.map Prod.fst <+: workers := by
  induction h with
  | nobody => exact List.nil_prefix
  | found worker value rest => exact ⟨rest, rfl⟩
  | next _ _ ih => exact List.cons_prefix_cons.mpr ⟨rfl, ih⟩

/-- Nobody is started after a worker that has found something. -/
lemma last (h : InTurn workers book) {before later : Book ε α}
    (hbook : book = before ++ (worker, .ok (some value)) :: later) : later = [] := by
  induction h generalizing before with
  | nobody => simp at hbook
  | found worker' value' rest =>
      cases before with
      | nil => exact (List.cons.inj hbook).2.symm
      | cons entry before => simp at hbook
  | next hending _ ih =>
      cases before with
      | nil =>
          cases hbook
          exact absurd rfl (hending value)
      | cons entry before => exact ih (List.cons.inj hbook).2

/-- Everybody is started when nobody has found anything. -/
lemma all_started (h : InTurn workers book)
    (hnone : ∀ worker value, (worker, .ok (some value)) ∉ book) : book.map Prod.fst = workers := by
  induction h with
  | nobody => rfl
  | found worker value rest => exact absurd List.mem_cons_self (hnone worker value)
  | next _ _ ih =>
      have hrest := ih fun worker value hmem => hnone worker value (List.mem_cons_of_mem _ hmem)
      rw [List.map_cons, hrest]

lemma winner_of_mem (h : InTurn workers book) (hmem : (worker, .ok (some value)) ∈ book) :
    book.winner = some value := by
  induction h with
  | nobody => cases hmem
  | found worker' value' rest =>
      cases List.mem_singleton.mp hmem
      rfl
  | @next worker' ending rest book hending _ ih =>
      rcases List.mem_cons.mp hmem with heq | hmem
      · cases heq
        exact absurd rfl (hending value)
      · have hskip : Book.winner ((worker', ending) :: book) = book.winner := by
          cases ending with
          | error e => rfl
          | ok found =>
              cases found with
              | none => rfl
              | some value' => exact absurd rfl (hending value')
        rw [hskip]
        exact ih hmem

/-- Who has found something comes last. -/
lemma getLast?_of_mem (h : InTurn workers book) (hmem : (worker, .ok (some value)) ∈ book) :
    book.getLast? = some (worker, .ok (some value)) := by
  obtain ⟨before, later, hbook⟩ := List.append_of_mem hmem
  rw [hbook, h.last hbook, List.getLast?_concat]

end InTurn

/-! ## A race and its book -/

section

variable (search : ℕ → ℕ → EStateM ε σ (Option α)) (count : ℕ)

/-- **Workers one after another**, with notes and without: what they come to is read off the notes
that were added. -/
lemma runWorkers_noted (workers : List ℕ) (failure : Option ε) (book : Book ε α) (s : σ) :
    ∃ added s', InTurn workers added ∧
      runWorkers (noted search · count) workers .fresh failure (book, s)
        = ((⟨added.winner.isSome, added.winner⟩, failure.or added.failure), (book ++ added, s')) ∧
      runWorkers (search · count) workers .fresh failure s
        = ((⟨added.winner.isSome, added.winner⟩, failure.or added.failure), s') := by
  induction workers generalizing failure book s with
  | nil =>
      refine ⟨[], s, .nobody, ?_, ?_⟩
      · simp [runWorkers, Token.fresh]
      · simp [runWorkers, Token.fresh]
  | cons worker rest ih =>
      cases hrun : search worker count s with
      | ok found t =>
          have hnoted : noted search worker count (book, s)
              = .ok found (book ++ [(worker, .ok found)], t) := by
            rw [noted, hrun]
          cases found with
          | some value =>
              refine ⟨[(worker, .ok (some value))], t, .found worker value rest, ?_, ?_⟩
              · rw [runWorkers_of_some (noted search · count) hnoted]
                simp
              · rw [runWorkers_of_some (search · count) hrun]
                simp
          | none =>
              obtain ⟨added, s', hturn, hnotes, hbare⟩ :=
                ih failure (book ++ [(worker, .ok none)]) t
              refine ⟨(worker, .ok none) :: added, s', .next (by simp) hturn, ?_, ?_⟩
              · rw [runWorkers_of_none (noted search · count) hnoted, hnotes]
                simp
              · rw [runWorkers_of_none (search · count) hrun, hbare]
                simp
      | error e t =>
          have hnoted : noted search worker count (book, s)
              = .error e (book ++ [(worker, .error e)], t) := by
            rw [noted, hrun]
          obtain ⟨added, s', hturn, hnotes, hbare⟩ :=
            ih (failure.or (some e)) (book ++ [(worker, .error e)]) t
          refine ⟨(worker, .error e) :: added, s', .next (by simp) hturn, ?_, ?_⟩
          · rw [runWorkers_of_raise (noted search · count) hnoted, hnotes]
            simp
          · rw [runWorkers_of_raise (search · count) hrun, hbare]
            simp

/-- **A race and its book**: the same end with notes and without, and the notes tell which. -/
theorem race_noted (workers : ℤ) (exhausted : ε) (s : σ) :
    InTurn (List.range (max 1 workers).toNat) (raceBook search workers exhausted s) ∧
      ∃ s', race (noted search) workers exhausted ([], s)
          = (raceBook search workers exhausted s).settle exhausted
            (raceBook search workers exhausted s, s') ∧
        race search workers exhausted s
          = (raceBook search workers exhausted s).settle exhausted s' := by
  obtain ⟨book, s', hturn, hnotes, hbare⟩ := runWorkers_noted search (max 1 workers).toNat
    (List.range (max 1 workers).toNat) none [] s
  have hnoted : race (noted search) workers exhausted ([], s)
      = book.settle exhausted (book, s') := by
    rw [race, hnotes, Book.settle]
    cases book.failure <;> cases book.winner <;> rfl
  have hrace : race search workers exhausted s = book.settle exhausted s' := by
    rw [race, hbare, Book.settle]
    cases book.failure <;> cases book.winner <;> rfl
  have hbook : raceBook search workers exhausted s = book := by
    rw [raceBook, hnoted, Book.endState_settle]
  rw [hbook]
  exact ⟨hturn, s', hnoted, hrace⟩

/-- The notes say that workers were started in the order of their numbers, at most so many of them,
nobody after one that found something, and everybody if nobody did. -/
structure Book.InOrder (book : Book ε α) (count : ℕ) : Prop where
  numbers : book.map Prod.fst = List.range book.length
  length_le : book.length ≤ count
  last : ∀ before worker value later,
    book = before ++ (worker, .ok (some value)) :: later → later = []
  all : (∀ worker value, (worker, .ok (some value)) ∉ book) → book.length = count

omit search in
lemma InTurn.inOrder {book : Book ε α} (h : InTurn (List.range count) book) :
    book.InOrder count where
  numbers := by
    have hprefix := List.prefix_iff_eq_take.mp h.started
    have hle := h.started.length_le
    rw [List.length_map, List.length_range] at hle
    rwa [List.length_map, List.take_range, min_eq_left hle] at hprefix
  length_le := by simpa using h.started.length_le
  last _ _ _ _ := h.last
  all hnone := by simpa using congrArg List.length (h.all_started hnone)

/-- Notes in which nobody failed and nobody found anything are the notes of all workers. -/
lemma InTurn.eq_of_fruitless {workers : List ℕ} {book : Book ε α} (h : InTurn workers book)
    (hfailure : ∀ worker e, (worker, .error e) ∉ book)
    (hnone : ∀ worker value, (worker, .ok (some value)) ∉ book) :
    book = workers.map fun worker => (worker, .ok none) := by
  rw [← h.all_started hnone, List.map_map]
  refine (List.map_id book).symm.trans (List.map_congr_left ?_)
  rintro ⟨worker, ending⟩ hmem
  match ending with
  | .error e => exact absurd hmem (hfailure worker e)
  | .ok (some value) => exact absurd hmem (hnone worker value)
  | .ok none => rfl

/-- When nobody failed, the race says that there is nothing to be found exactly when all workers were
started and found nothing. -/
lemma InTurn.exhausted_iff {workers : List ℕ} {book : Book ε α} (h : InTurn workers book)
    (hfailure : ∀ worker e, (worker, .error e) ∉ book) (exhausted : ε) (t : τ) :
    (∃ t', book.settle exhausted t = .error exhausted t') ↔
      book = workers.map fun worker => (worker, .ok none) := by
  rw [Book.settle, Book.failure_eq_none.mpr hfailure]
  constructor
  · rintro ⟨_, hend⟩
    refine h.eq_of_fruitless hfailure (Book.winner_eq_none.mp ?_)
    cases hwinner : book.winner with
    | none => rfl
    | some value =>
        rw [hwinner] at hend
        cases hend
  · rintro rfl
    rw [Book.winner_eq_none.mpr (by simp)]
    exact ⟨t, rfl⟩

/-- **What a race ends with.**  Let any number of workers, but at least one, search in any way, each
of them to its end before the next one is submitted.  Noting down who is started, and how they end,
changes nothing; and the notes are in order: nobody is started after a worker that has found
something.

If nobody who was started failed, the race returns what the lowest-numbered of the workers that
found something has found, and it says that there was nothing to be found exactly when all workers
were started and found nothing.  If somebody failed, it ends with the failure of one of them.

Whatever is done to the token of a race, and in whatever order, at most one offer succeeds, none
does after a cancellation, and after the first success or cancellation neither the result nor that
there is one changes. -/
theorem race_decided (workers : ℤ) (exhausted : ε) (s : σ) :
    withoutNotes (race (noted search) workers exhausted ([], s))
      = race search workers exhausted s ∧
    (raceBook search workers exhausted s).InOrder (max 1 workers).toNat ∧
    ((∀ worker e, (worker, .error e) ∉ raceBook search workers exhausted s) →
      (∀ worker value, (worker, .ok (some value)) ∈ raceBook search workers exhausted s →
        (∀ worker' value', (worker', .ok (some value')) ∈ raceBook search workers exhausted s →
          worker ≤ worker') ∧
        ∃ s', race search workers exhausted s = .ok value s') ∧
      ((∃ s', race search workers exhausted s = .error exhausted s') ↔
        raceBook search workers exhausted s
          = (List.range (max 1 workers).toNat).map fun worker => (worker, .ok none))) ∧
    ((∃ worker e, (worker, .error e) ∈ raceBook search workers exhausted s) →
      ∃ worker e s', (worker, .error e) ∈ raceBook search workers exhausted s ∧
        race search workers exhausted s = .error e s') ∧
    ∀ (t : Token α) (calls before : List (Token.Call α)) (call : Token.Call α)
      (later : List (Token.Call α)) (value : α),
      (t.successes calls).count true ≤ 1 ∧
      ((t.after (before ++ .cancel :: later)).offer value).1 = false ∧
      (((t.after before).call call).1 = true ∨ call = .cancel →
        t.after (before ++ call :: later) = t.after (before ++ [call])) ∧
      (((t.after before).offer value).1 = true →
        (t.after (before ++ .offer value :: later)).winner = some value) := by
  obtain ⟨hturn, s', hnoted, hrace⟩ := race_noted search workers exhausted s
  rw [hnoted, Book.withoutNotes_settle, hrace]
  generalize raceBook search workers exhausted s = book at hturn
  refine ⟨rfl, hturn.inOrder, fun hfailure => ⟨fun worker value hmem => ⟨?_, s', ?_⟩,
    hturn.exhausted_iff hfailure exhausted s'⟩, ?_, ?_⟩
  · intro worker' value' hmem'
    have hlast := (hturn.getLast?_of_mem hmem).symm.trans (hturn.getLast?_of_mem hmem')
    cases hlast
    exact le_rfl
  · rw [Book.settle, Book.failure_eq_none.mpr hfailure, hturn.winner_of_mem hmem]
  · rintro ⟨worker, e, hmem⟩
    cases hfailure : book.failure with
    | none => exact absurd hmem (Book.failure_eq_none.mp hfailure worker e)
    | some e' =>
        obtain ⟨worker', hmem'⟩ := Book.mem_of_failure hfailure
        refine ⟨worker', e', s', hmem', ?_⟩
        rw [Book.settle, hfailure]
  · intro t calls before call later value
    exact ⟨t.count_successes_le calls, t.offer_after_cancel before later value,
      fun _ => (t.after_decided before call later).1,
      fun hsuccess => (t.after_decided before (.offer value) later).2 value rfl hsuccess⟩

end

/-- Three workers: the first finds nothing, or fails, the second finds zero, and the third would
fail. -/
def threeWorkers (first : Except Error (Option ℕ)) (worker _workers : ℕ) :
    EStateM Error ℕ (Option ℕ) := fun s =>
  match worker, first with
  | 0, .ok found => .ok found (s + 1)
  | 0, .error e => .error e (s + 1)
  | 1, _ => .ok (some 0) (s + 1)
  | _, _ => .error .randomnessExhausted (s + 1)

/-- Zero is a witness like any other, and the third worker is not started.  A failure before it is
what the race reports. -/
theorem race_decided_zero :
    (raceBook (threeWorkers (.ok none)) 3 (.trialFailed (.fourSquares 9)) 0
        = [(0, .ok none), (1, .ok (some 0))] ∧
      ∃ s', race (threeWorkers (.ok none)) 3 (.trialFailed (.fourSquares 9)) 0 = .ok 0 s') ∧
    (raceBook (threeWorkers (.error .outOfSteps)) 3 (.trialFailed (.fourSquares 9)) 0
        = [(0, .error .outOfSteps), (1, .ok (some 0))] ∧
      ∃ s', race (threeWorkers (.error .outOfSteps)) 3 (.trialFailed (.fourSquares 9)) 0
        = .error .outOfSteps s') ∧
    (raceBook (threeWorkers (.ok none)) 0 (.trialFailed (.fourSquares 9)) 0 = [(0, .ok none)] ∧
      ∃ s', race (threeWorkers (.ok none)) 0 (.trialFailed (.fourSquares 9)) 0
        = .error (.trialFailed (.fourSquares 9)) s') ∧
    (Token.fresh.offer 0).1 = true ∧
    (Token.fresh.after [.offer 0, .cancel, .offer 5]).winner = some 0 := by
  have hzero : raceBook (threeWorkers (.ok none)) 3 (.trialFailed (.fourSquares 9)) 0
      = [(0, .ok none), (1, .ok (some 0))] := rfl
  have hfailing : raceBook (threeWorkers (.error .outOfSteps)) 3 (.trialFailed (.fourSquares 9)) 0
      = [(0, .error .outOfSteps), (1, .ok (some 0))] := rfl
  have hsingle : raceBook (threeWorkers (.ok none)) 0 (.trialFailed (.fourSquares 9)) 0
      = [(0, .ok none)] := rfl
  have hsuccess : ((Token.fresh : Token ℕ).offer 0).1 = true := rfl
  obtain ⟨-, -, hwinner, -, htoken⟩ := race_decided (threeWorkers (.ok none)) 3
    (.trialFailed (.fourSquares 9)) 0
  obtain ⟨-, -, -, hfailure, -⟩ := race_decided (threeWorkers (.error .outOfSteps)) 3
    (.trialFailed (.fourSquares 9)) 0
  obtain ⟨-, -, hexhausted, -⟩ := race_decided (threeWorkers (.ok none)) 0
    (.trialFailed (.fourSquares 9)) 0
  rw [hzero] at hwinner
  rw [hfailing] at hfailure
  rw [hsingle] at hexhausted
  obtain ⟨worker, e, s', hmem, hend⟩ := hfailure ⟨0, .outOfSteps, by simp⟩
  obtain ⟨-, rfl⟩ : worker = 0 ∧ e = .outOfSteps := by simpa using hmem
  exact ⟨⟨hzero, ((hwinner (by simp)).1 1 0 (by simp)).2⟩, ⟨hfailing, s', hend⟩,
    ⟨hsingle, (hexhausted (by simp)).2.mpr rfl⟩, hsuccess,
    (htoken .fresh [] [] .cancel [.cancel, .offer 5] 0).2.2.2 hsuccess⟩

end

end HiddenOrder
