/-
What an assimilation leaves in its tag.

While no read is short, the chunks that were submitted are the pieces of the range in order
(`Inv.reading`); a short read leaves the loop no way to end well (`Inv.failing`).  Each
chunk has a blob of its own, so the puts do not meet whatever order they are executed in
(`Inv.executed`, `Inv.untouched`), and at the end all of them have been.
-/
import Mathlib.Data.List.Basic
import IowarpCore.Cae.BinaryFileAssimilator

namespace IowarpCore

namespace BinaryFileAssimilator

variable {env : Env} {job : Job} {tag : Tag} {s : State}

/-! ### Names -/

theorem chunkName_inj {i j : Nat} : chunkName i = chunkName j ↔ i = j := by
  refine ⟨fun h => ?_, fun h => by rw [h]⟩
  have hlist := congrArg String.toList h
  rw [chunkName, chunkName, String.toList_append, String.toList_append, List.append_cancel_left_eq,
    Nat.toString_eq_repr, Nat.toString_eq_repr, Nat.toList_repr, Nat.toList_repr] at hlist
  have hi := Nat.ofDigitChars_ten_toDigits (n := i)
  rw [hlist, Nat.ofDigitChars_ten_toDigits] at hi
  exact hi.symm

theorem chunkName_ne_description (i : Nat) : chunkName i ≠ "description" := by
  intro h
  have hhead := congrArg (fun name => name.toList.head?) h
  have hc : "chunk_".toList.head? = some 'c' := by decide
  have hd : "description".toList.head? = some 'd' := by decide
  rw [chunkName] at hhead
  simp only [String.toList_append, List.head?_append, hc, hd, Option.some_or, Option.some.injEq] at hhead
  exact absurd hhead (by decide)

/-! ### Pieces -/

/-- The bytes that are wanted. -/
def Job.range (job : Job) : Bytes :=
  (job.contents.drop job.chunkOffset.toNat).take job.totalSize.toNat

def Job.piece (job : Job) (i : Nat) : Bytes := (job.range.drop (i * kMaxChunkSize)).take kMaxChunkSize

def Job.numChunks (job : Job) : Nat := (job.totalSize.toNat + kMaxChunkSize - 1) / kMaxChunkSize

theorem flatMap_pieces (l : Bytes) (m n : Nat) :
    (List.range n).flatMap (fun i => (l.drop (i * m)).take m) = l.take (n * m) := by
  induction n with
  | zero => rw [List.range_zero, List.flatMap_nil, Nat.zero_mul, List.take_zero]
  | succ n ih =>
    rw [List.range_succ, List.flatMap_append, ih, List.flatMap_singleton, Nat.succ_mul, List.take_add]

theorem numChunks_eq {k : Nat} (hlow : job.totalSize.toNat ≤ k * kMaxChunkSize)
    (hhigh : k * kMaxChunkSize < job.totalSize.toNat + kMaxChunkSize) : job.numChunks = k := by
  unfold kMaxChunkSize at hlow hhigh
  unfold Job.numChunks kMaxChunkSize
  omega

/-- What is between two places of the range in the file. -/
theorem piece_eq {k : Nat} :
    job.piece k = (job.contents.drop (job.chunkOffset.toNat + k * kMaxChunkSize)).take
      (min kMaxChunkSize (job.totalSize.toNat - k * kMaxChunkSize)) := by
  rw [Job.piece, Job.range, List.drop_take, List.drop_drop, List.take_take]

/-! ### Reads -/

variable {contents : Bytes} {n : Nat} {stream : IfStream}

theorem read_full (hfail : stream.fail = false)
    (hlength : (stream.read env contents n).1.length = n) :
    stream.read env contents n = ((contents.drop stream.pos).take n, { stream with pos := stream.pos + n }) ∧
      (n = 0 ∨ stream.pos + n ≤ contents.length) := by
  unfold IfStream.read at hlength ⊢
  simp only [hfail, Bool.false_eq_true, if_false] at hlength ⊢
  split at hlength
  case isTrue hroom =>
    rw [if_pos hroom]
    have hrest := hroom
    rw [List.length_drop, List.length_take] at hrest
    refine ⟨?_, by omega⟩
    rw [List.drop_take, List.take_take, Nat.min_eq_left (by omega)]
  case isFalse hroom => exact absurd (Nat.le_of_eq hlength.symm) hroom

theorem read_short (hlength : (stream.read env contents n).1.length ≠ n) :
    (stream.read env contents n).2.fail = true ∧ (stream.read env contents n).1.length < n := by
  unfold IfStream.read at hlength ⊢
  by_cases hfail : stream.fail = true
  · simp only [if_pos hfail] at hlength ⊢
    exact ⟨hfail, Nat.pos_of_ne_zero (Ne.symm hlength)⟩
  · simp only [if_neg hfail] at hlength ⊢
    split at hlength
    case isTrue hroom =>
      rw [List.length_take] at hlength
      omega
    case isFalse hroom =>
      simp only [if_neg hroom]
      exact ⟨trivial, Nat.lt_of_not_le hroom⟩

theorem read_failed (hfail : stream.fail = true) :
    stream.read env contents n = ([], stream) := by
  rw [IfStream.read, if_pos hfail]

/-! ### The invariant -/

theorem putBlob_congr {name : String} (data : Bytes) {tag' : Tag} (h : tag' name = tag name) :
    putBlob env name data tag' name = putBlob env name data tag name := by
  rw [putBlob, putBlob, Function.update_self, Function.update_self, h]

/-- What holds of every state of the loop; `tag` is the tag before any chunk is put. -/
structure Inv (env : Env) (job : Job) (tag : Tag) (s : State) : Prop where
  same : s.job = job
  reading : s.stream.fail = false →
    s.stream.pos = job.chunkOffset.toNat + s.bytesProcessed ∧
    (s.bytesProcessed = 0 ∨ job.chunkOffset.toNat + s.bytesProcessed ≤ job.contents.length) ∧
    s.bytesProcessed = min (s.chunks.length * kMaxChunkSize) job.totalSize.toNat ∧
    s.chunks.length * kMaxChunkSize < job.totalSize.toNat + kMaxChunkSize ∧
    ∀ i < s.chunks.length, s.chunks[i]? = some (job.piece i)
  failing : s.stream.fail = true → s.bytesProcessed < job.totalSize.toNat
  bounded : s.bytesProcessed ≤ job.totalSize.toNat
  active : ∃ w ≤ s.chunks.length, s.activeTasks = List.range' w (s.chunks.length - w) ∧
    ∀ i < w, i ∈ s.executed ∧ env.putCode (chunkName i) = 0
  submitted : ∀ i ∈ s.executed, i < s.chunks.length
  executed : ∀ i ∈ s.executed, ∀ data, s.chunks[i]? = some data →
    s.tag (chunkName i) = putBlob env (chunkName i) data tag (chunkName i)
  untouched : ∀ i, i ∉ s.executed → s.tag (chunkName i) = tag (chunkName i)
  waiting : s.place = .waiting → s.activeTasks ≠ []
  draining : s.place = .draining → s.bytesProcessed = job.totalSize.toNat
  ended : s.place = .ended 0 → s.bytesProcessed = job.totalSize.toNat ∧ s.activeTasks = []

/-- Only the place changes, and the stream if the loop ends. -/
theorem Inv.of_place (hinv : Inv env job tag s) (place : Place)
    (hwaiting : place = .waiting → s.activeTasks ≠ [])
    (hdraining : place = .draining → s.bytesProcessed = job.totalSize.toNat)
    (hended : place = .ended 0 → s.bytesProcessed = job.totalSize.toNat ∧ s.activeTasks = []) :
    Inv env job tag { s with place := place } :=
  { hinv with waiting := hwaiting, draining := hdraining, ended := hended }

theorem loopHead_ne_waiting (bytesProcessed : Nat) : loopHead job bytesProcessed ≠ .waiting := by
  unfold loopHead
  split <;> exact Place.noConfusion

theorem loopHead_ne_ended (bytesProcessed : Nat) (errorCode : Int) :
    loopHead job bytesProcessed ≠ .ended errorCode := by
  unfold loopHead
  split <;> exact Place.noConfusion

theorem loopHead_draining {bytesProcessed : Nat} (h : loopHead job bytesProcessed = .draining) :
    job.totalSize.toNat ≤ bytesProcessed := by
  unfold loopHead at h
  split at h
  case isTrue => cases h
  case isFalse hlt => exact Nat.le_of_not_lt hlt

theorem ended_ne_ended {errorCode : Int} (h : errorCode ≠ 0) :
    Place.ended errorCode ≠ .ended 0 :=
  fun heq => h (Place.ended.inj heq)

/-- One more chunk. -/
theorem Inv.push (hinv : Inv env job tag s) (hplace : s.place = .filling) (stream : IfStream)
    (buffer : Bytes)
    (hreading : stream.fail = false →
      stream.pos = job.chunkOffset.toNat + (s.bytesProcessed + buffer.length) ∧
      (s.bytesProcessed + buffer.length = 0 ∨
        job.chunkOffset.toNat + (s.bytesProcessed + buffer.length) ≤ job.contents.length) ∧
      s.bytesProcessed + buffer.length =
        min ((s.chunks.length + 1) * kMaxChunkSize) job.totalSize.toNat ∧
      (s.chunks.length + 1) * kMaxChunkSize < job.totalSize.toNat + kMaxChunkSize ∧
      (∀ i < s.chunks.length, s.chunks[i]? = some (job.piece i)) ∧
      buffer = job.piece s.chunks.length)
    (hfailing : stream.fail = true → s.bytesProcessed + buffer.length < job.totalSize.toNat)
    (hbounded : s.bytesProcessed + buffer.length ≤ job.totalSize.toNat) :
    Inv env job tag { s with
      stream := stream
      bytesProcessed := s.bytesProcessed + buffer.length
      chunks := s.chunks ++ [buffer]
      activeTasks := s.activeTasks ++ [s.chunks.length] } := by
  have hlength : (s.chunks ++ [buffer]).length = s.chunks.length + 1 := by
    rw [List.length_append, List.length_singleton]
  exact {
    same := hinv.same
    reading := by
      intro hok
      obtain ⟨hpos, hinside, hprocessed, hroom, hpieces, hbuffer⟩ := hreading hok
      refine ⟨hpos, hinside, by rw [hlength]; exact hprocessed, by rw [hlength]; exact hroom, ?_⟩
      intro i hi
      rw [hlength] at hi
      by_cases hlast : i = s.chunks.length
      · subst hlast
        rw [List.getElem?_concat_length, hbuffer]
      · rw [List.getElem?_append_left (by omega)]
        exact hpieces i (by omega)
    failing := hfailing
    bounded := hbounded
    active := by
      obtain ⟨w, hw, hactive, hdone⟩ := hinv.active
      refine ⟨w, by rw [hlength]; omega, ?_, hdone⟩
      rw [hactive, hlength, Nat.succ_sub hw, List.range'_concat, Nat.one_mul, Nat.add_sub_of_le hw]
    submitted := by
      intro i hi
      rw [hlength]
      exact Nat.lt_succ_of_lt (hinv.submitted i hi)
    executed := by
      intro i hi data hdata
      rw [List.getElem?_append_left (hinv.submitted i hi)] at hdata
      exact hinv.executed i hi data hdata
    untouched := hinv.untouched
    waiting := fun h => absurd (hplace.symm.trans h) Place.noConfusion
    draining := fun h => absurd (hplace.symm.trans h) Place.noConfusion
    ended := fun h => absurd (hplace.symm.trans h) Place.noConfusion }

theorem Inv.submit (hinv : Inv env job tag s) (hplace : s.place = .filling)
    (hmore : s.bytesProcessed < job.totalSize.toNat) : Inv env job tag (submit env s) := by
  have hsame := hinv.same
  subst hsame
  have hsize : 0 < min kMaxChunkSize (s.job.totalSize.toNat - s.bytesProcessed) := by
    unfold kMaxChunkSize
    omega
  unfold BinaryFileAssimilator.submit
  generalize hcurrent : min kMaxChunkSize (s.job.totalSize.toNat - s.bytesProcessed) = size at hsize ⊢
  have hle : s.bytesProcessed + size ≤ s.job.totalSize.toNat := by omega
  simp only
  by_cases hfull : (s.stream.read env s.job.contents size).1.length = size
  · rw [if_neg fun h => h.1 hfull]
    refine hinv.push hplace _ _ ?_ ?_ (by rw [hfull]; exact hle)
    · intro hok
      have hfail : s.stream.fail = false := by
        by_contra hfail
        rw [read_failed (by simpa using hfail)] at hok
        exact hfail hok
      obtain ⟨hpos, hinside, hprocessed, hroom, hpieces⟩ := hinv.reading hfail
      obtain ⟨hread, hend⟩ := read_full hfail hfull
      have hstart : s.bytesProcessed = s.chunks.length * kMaxChunkSize := by omega
      rw [hfull, hread]
      refine ⟨?_, ?_, ?_, ?_, hpieces, ?_⟩
      · simp only [hpos, Nat.add_assoc]
      · omega
      · rw [Nat.succ_mul]
        generalize s.chunks.length * kMaxChunkSize = before at hstart ⊢
        generalize kMaxChunkSize = chunk at hcurrent ⊢
        omega
      · rw [Nat.succ_mul]
        generalize s.chunks.length * kMaxChunkSize = before at hstart ⊢
        generalize kMaxChunkSize = chunk at hcurrent ⊢
        omega
      · rw [piece_eq, hpos, hstart, ← hcurrent, hstart]
    · intro hbad
      have hfail : s.stream.fail = true := by
        by_contra hfail
        obtain ⟨hread, -⟩ := read_full (by simpa using hfail) hfull
        rw [hread] at hbad
        exact hfail hbad
      rw [read_failed hfail, List.length_nil] at hfull
      omega
  · obtain ⟨hfail, hshort⟩ := read_short hfull
    by_cases hend : (s.stream.read env s.job.contents size).1.length ≠ size ∧
        ¬ ((s.stream.read env s.job.contents size).2.eof = true ∧
          (s.stream.read env s.job.contents size).1.length > 0)
    · rw [if_pos hend]
      exact { hinv with
        reading := fun hok => absurd (hok.symm.trans hfail) Bool.false_ne_true
        failing := fun _ => hmore
        waiting := fun h => absurd h Place.noConfusion
        draining := fun h => absurd h Place.noConfusion
        ended := fun h => absurd h (ended_ne_ended (by decide)) }
    · rw [if_neg hend]
      exact hinv.push hplace _ _ (fun hok => absurd (hok.symm.trans hfail) Bool.false_ne_true)
        (fun _ => by omega) (by omega)

theorem Inv.await (hinv : Inv env job tag s) {first : Nat} {rest : List Nat} {next : Place}
    (hactive : s.activeTasks = first :: rest) (hwaiting : next ≠ .waiting)
    (hdraining : next = .draining → s.bytesProcessed = job.totalSize.toNat)
    (hended : next ≠ .ended 0) : Inv env job tag (await env s first rest next) := by
  unfold BinaryFileAssimilator.await
  by_cases hdone : first ∈ s.executed
  · rw [if_neg (not_not_intro hdone)]
    by_cases hcode : env.putCode (chunkName first) = 0
    · rw [if_neg (not_not_intro hcode)]
      obtain ⟨w, hw, hrange, hbefore⟩ := hinv.active
      have hlt : w < s.chunks.length := by
        by_contra hge
        rw [Nat.sub_eq_zero_of_le (Nat.le_of_not_lt hge), List.range'_zero, hactive] at hrange
        cases hrange
      obtain ⟨k, hk⟩ := Nat.exists_eq_add_of_lt hlt
      have hcount : s.chunks.length - w = k + 1 := by omega
      rw [hactive, hcount, List.range'_succ, List.cons.injEq] at hrange
      obtain ⟨rfl, hrest⟩ := hrange
      have hcount' : s.chunks.length - (first + 1) = k := by omega
      exact { hinv with
        active := by
          refine ⟨first + 1, hlt, by rw [hcount', hrest], fun i hi => ?_⟩
          by_cases hlast : i = first
          · rw [hlast]
            exact ⟨hdone, hcode⟩
          · exact hbefore i (by omega)
        waiting := fun h => absurd h hwaiting
        draining := hdraining
        ended := fun h => absurd h hended }
    · rw [if_pos hcode]
      exact hinv.of_place _ (fun h => absurd h Place.noConfusion)
        (fun h => absurd h Place.noConfusion) fun h => absurd h (ended_ne_ended (by decide))
  · rw [if_pos hdone]
    exact hinv

theorem Inv.advance (hinv : Inv env job tag s) : Inv env job tag (advance env s) := by
  have hsame := hinv.same
  unfold BinaryFileAssimilator.advance
  cases hplace : s.place with
  | filling =>
    simp only
    by_cases hmore : s.activeTasks.length < kMaxParallelTasks ∧
        s.bytesProcessed < s.job.totalSize.toNat
    · rw [if_pos hmore]
      exact hinv.submit hplace (hsame ▸ hmore.2)
    · rw [if_neg hmore]
      by_cases hempty : s.activeTasks = []
      · rw [if_pos hempty]
        refine hinv.of_place _ (fun h => absurd h (loopHead_ne_waiting _)) (fun h => ?_)
          fun h => absurd h (loopHead_ne_ended _ _)
        have hge := loopHead_draining h
        rw [hsame] at hge
        exact Nat.le_antisymm hinv.bounded hge
      · rw [if_neg hempty]
        exact hinv.of_place _ (fun _ => hempty) (fun h => absurd h Place.noConfusion)
          fun h => absurd h Place.noConfusion
  | waiting =>
    simp only
    cases hactive : s.activeTasks with
    | nil => exact hinv
    | cons first rest =>
      refine hinv.await hactive (loopHead_ne_waiting _) (fun h => ?_) (loopHead_ne_ended _ _)
      have hge := loopHead_draining h
      rw [hsame] at hge
      exact Nat.le_antisymm hinv.bounded hge
  | draining =>
    have hall := hinv.draining hplace
    simp only
    cases hactive : s.activeTasks with
    | nil =>
      have hended := hinv.of_place (.ended 0) (fun h => absurd h Place.noConfusion)
        (fun _ => hall) fun _ => ⟨hall, hactive⟩
      rwa [hactive] at hended
    | cons first rest =>
      exact hinv.await hactive Place.noConfusion (fun _ => hall) Place.noConfusion
  | ended errorCode => exact hinv

theorem Inv.execute (hinv : Inv env job tag s) (chunkIdx : Nat) :
    Inv env job tag (execute env chunkIdx s) := by
  unfold BinaryFileAssimilator.execute
  cases hdata : s.chunks[chunkIdx]? with
  | none => exact hinv
  | some data =>
    by_cases hdone : chunkIdx ∈ s.executed
    · simp only [if_pos hdone]
      exact hinv
    simp only [if_neg hdone]
    have hother : ∀ i, i ≠ chunkIdx →
        putBlob env (chunkName chunkIdx) data s.tag (chunkName i) = s.tag (chunkName i) :=
      fun i hne => Function.update_of_ne (chunkName_inj.not.mpr hne) _ _
    exact { hinv with
      active := by
        obtain ⟨w, hw, hactive, hbefore⟩ := hinv.active
        exact ⟨w, hw, hactive, fun i hi => ⟨List.mem_cons_of_mem _ (hbefore i hi).1, (hbefore i hi).2⟩⟩
      submitted := by
        intro i hi
        obtain rfl | hold := List.mem_cons.mp hi
        · exact (List.getElem?_eq_some_iff.mp hdata).1
        · exact hinv.submitted i hold
      executed := by
        intro i hi data' hdata'
        by_cases hnew : i = chunkIdx
        · subst hnew
          obtain rfl := Option.some.inj (hdata.symm.trans hdata')
          exact putBlob_congr data (hinv.untouched i hdone)
        · have hold := List.mem_of_ne_of_mem hnew hi
          exact (hother i hnew).trans (hinv.executed i hold data' hdata')
      untouched := by
        intro i hi
        obtain ⟨hnew, hold⟩ := not_or.mp (List.mem_cons.not.mp hi)
        exact (hother i hnew).trans (hinv.untouched i hold) }

theorem Inv.step (hinv : Inv env job tag s) (move : Move) : Inv env job tag (step env s move) := by
  cases move with
  | advance => exact hinv.advance
  | execute chunkIdx => exact hinv.execute chunkIdx

theorem Inv.run (hinv : Inv env job tag s) (moves : List Move) : Inv env job tag (run env moves s) := by
  induction moves generalizing s with
  | nil => exact hinv
  | cons move moves ih => exact ih (hinv.step move)

/-! ### The end -/

/-- **What a call that ends with 0 has done**: the range was read to its end, and every chunk is in
front of what its blob held. -/
theorem Inv.final (hinv : Inv env job tag s) (hended : s.place = .ended 0)
    (htotal : 0 < job.totalSize.toNat) :
    job.chunkOffset.toNat + job.totalSize.toNat ≤ job.contents.length ∧
      (∀ i < job.numChunks, s.tag (chunkName i) =
        some (job.piece i ++ ((tag (chunkName i)).getD []).drop (job.piece i).length)) ∧
      ∀ i, job.numChunks ≤ i → s.tag (chunkName i) = tag (chunkName i) := by
  obtain ⟨hall, hempty⟩ := hinv.ended hended
  have hok : s.stream.fail = false := by
    by_contra hfail
    have := hinv.failing (by simpa using hfail)
    omega
  obtain ⟨-, hinside, hprocessed, hroom, hpieces⟩ := hinv.reading hok
  have hchunks : job.numChunks = s.chunks.length := numChunks_eq (by omega) hroom
  obtain ⟨w, hw, hactive, hdone⟩ := hinv.active
  obtain rfl : w = s.chunks.length := by
    rw [hempty] at hactive
    have hlength := congrArg List.length hactive
    rw [List.length_nil, List.length_range'] at hlength
    omega
  rw [hchunks]
  refine ⟨by omega, fun i hi => ?_, fun i hi => ?_⟩
  · obtain ⟨hexecuted, hcode⟩ := hdone i hi
    rw [hinv.executed i hexecuted _ (hpieces i hi), putBlob, Function.update_self, if_pos hcode]
  · exact hinv.untouched i fun hexecuted => absurd (hinv.submitted i hexecuted) (Nat.not_lt_of_le hi)

/-- The chunk blobs of a tag are exactly the range. -/
def Assimilated (job : Job) (tag : Tag) : Prop :=
  (List.range job.numChunks).flatMap (fun i => (tag (chunkName i)).getD []) = job.range ∧
    ∀ i, job.numChunks ≤ i → tag (chunkName i) = none

/-- A tag none of whose chunk blobs is longer than the chunk that comes. -/
def Fits (job : Job) (tag : Tag) : Prop :=
  (∀ i < job.numChunks, ((tag (chunkName i)).getD []).length ≤ (job.piece i).length) ∧
    ∀ i, job.numChunks ≤ i → tag (chunkName i) = none

theorem flatMap_append_eq_iff (f g : Nat → Bytes) (n : Nat) :
    (List.range n).flatMap (fun i => f i ++ g i) = (List.range n).flatMap f ↔ ∀ i < n, g i = [] := by
  constructor
  · intro h
    have hlength : ∀ m, ((List.range m).flatMap (fun i => f i ++ g i)).length =
        ((List.range m).flatMap f).length + ((List.range m).flatMap g).length := by
      intro m
      induction m with
      | zero => rfl
      | succ m ih =>
        simp only [List.range_succ, List.flatMap_append, List.flatMap_singleton,
          List.length_append, ih]
        omega
    have hsum := hlength n
    rw [h] at hsum
    have hnil : (List.range n).flatMap g = [] := List.length_eq_zero_iff.mp (by omega)
    intro i hi
    exact List.flatMap_eq_nil_iff.mp hnil i (List.mem_range.mpr hi)
  · intro h
    refine List.flatMap_congr fun i hi => ?_
    rw [h i (List.mem_range.mp hi), List.append_nil]

theorem range_eq_pieces : (List.range job.numChunks).flatMap job.piece = job.range := by
  have hlength : job.range.length ≤ job.numChunks * kMaxChunkSize := by
    have hle : job.range.length ≤ job.totalSize.toNat := List.length_take_le _ _
    unfold Job.numChunks kMaxChunkSize
    omega
  rw [← List.take_of_length_le hlength, ← flatMap_pieces]
  rfl

theorem Inv.assimilated_iff (hinv : Inv env job tag s) (hended : s.place = .ended 0)
    (htotal : 0 < job.totalSize.toNat) : Assimilated job s.tag ↔ Fits job tag := by
  obtain ⟨-, hchunks, hbehind⟩ := hinv.final hended htotal
  have hfront : (List.range job.numChunks).flatMap (fun i => (s.tag (chunkName i)).getD []) =
      (List.range job.numChunks).flatMap fun i =>
        job.piece i ++ ((tag (chunkName i)).getD []).drop (job.piece i).length := by
    refine List.flatMap_congr fun i hi => ?_
    rw [hchunks i (List.mem_range.mp hi), Option.getD_some]
  unfold Assimilated Fits
  rw [hfront, ← range_eq_pieces, flatMap_append_eq_iff]
  refine and_congr (forall₂_congr fun i _ => List.drop_eq_nil_iff) (forall₂_congr fun i hi => ?_)
  rw [hbehind i hi]

/-! ### The call ends -/

/-- What is left to do. -/
def left (s : State) : Nat :=
  3 * (s.job.totalSize.toNat - s.bytesProcessed) + 2 * s.activeTasks.length +
    if s.place = .filling then 1 else 0

/-- The call has ended, or less is left. -/
def Progress (s s' : State) : Prop := (∃ errorCode, s'.place = .ended errorCode) ∨ left s' < left s

theorem progress_submit (hplace : s.place = .filling) (hmore : s.bytesProcessed < s.job.totalSize.toNat) :
    Progress s (submit env s) := by
  unfold submit
  simp only
  split
  case isTrue => exact .inl ⟨-9, rfl⟩
  case isFalse hgood =>
    refine .inr ?_
    have hpos : 0 < (s.stream.read env s.job.contents
        (min kMaxChunkSize (s.job.totalSize.toNat - s.bytesProcessed))).1.length := by
      by_contra hnone
      refine hgood ⟨?_, fun h => hnone h.2⟩
      unfold kMaxChunkSize at hnone ⊢
      omega
    unfold left
    simp only [hplace, if_true, List.length_append, List.length_singleton]
    omega

/-- The oldest put is executed, if it has not been, and taken off. -/
theorem progress_await (hinv : Inv env job tag s) {first : Nat} {rest : List Nat}
    (hactive : s.activeTasks = first :: rest) (next : Place)
    (hnext : ∀ s' : State, s'.place = s.place → s'.job = s.job →
      s'.bytesProcessed = s.bytesProcessed → s'.activeTasks = s.activeTasks →
      advance env s' = await env s' first rest next) :
    Progress s (run env [.execute first, .advance] s) := by
  have hlt : first < s.chunks.length := by
    obtain ⟨w, -, hrange, -⟩ := hinv.active
    have hmem : first ∈ List.range' w (s.chunks.length - w) := by
      rw [← hrange, hactive]
      exact List.mem_cons_self
    rw [List.mem_range'_1] at hmem
    omega
  have hsame : (execute env first s).place = s.place ∧ (execute env first s).job = s.job ∧
      (execute env first s).bytesProcessed = s.bytesProcessed ∧
      (execute env first s).activeTasks = s.activeTasks ∧ first ∈ (execute env first s).executed := by
    unfold execute
    rw [List.getElem?_eq_getElem hlt]
    by_cases hdone : first ∈ s.executed
    · simp only [if_pos hdone, true_and]
      exact hdone
    · simp only [if_neg hdone, true_and]
      exact List.mem_cons_self
  obtain ⟨hplace, hjob, hprocessed, htasks, hdone⟩ := hsame
  have hrun : run env [.execute first, .advance] s = await env (execute env first s) first rest next :=
    hnext _ hplace hjob hprocessed htasks
  rw [hrun, await, if_neg (not_not_intro hdone)]
  by_cases hcode : env.putCode (chunkName first) = 0
  · rw [if_neg (not_not_intro hcode)]
    refine .inr ?_
    have hlength : s.activeTasks.length = rest.length + 1 := by rw [hactive, List.length_cons]
    unfold left
    simp only [hjob, hprocessed, hlength]
    split <;> split <;> omega
  · rw [if_pos hcode]
    exact .inl ⟨-10, rfl⟩

theorem progress (hinv : Inv env job tag s) : ∃ moves, Progress s (run env moves s) := by
  cases hplace : s.place with
  | filling =>
    refine ⟨[.advance], ?_⟩
    have hrun : run env [.advance] s = advance env s := rfl
    rw [hrun, advance, hplace]
    simp only
    by_cases hmore : s.activeTasks.length < kMaxParallelTasks ∧
        s.bytesProcessed < s.job.totalSize.toNat
    · rw [if_pos hmore]
      exact progress_submit hplace hmore.2
    rw [if_neg hmore]
    refine .inr ?_
    by_cases hempty : s.activeTasks = []
    · have hall : ¬ s.bytesProcessed < s.job.totalSize.toNat :=
        fun hlt => hmore ⟨by rw [hempty]; decide, hlt⟩
      rw [if_pos hempty, loopHead, if_neg hall]
      unfold left
      simp only [hplace, if_true, reduceCtorEq, if_false]
      omega
    · rw [if_neg hempty]
      unfold left
      simp only [hplace, if_true, reduceCtorEq, if_false]
      omega
  | waiting =>
    cases hactive : s.activeTasks with
    | nil => exact absurd hactive (hinv.waiting hplace)
    | cons first rest =>
      refine ⟨_, progress_await hinv hactive (loopHead s.job s.bytesProcessed) ?_⟩
      intro s' hplace' hjob' hprocessed' htasks'
      rw [advance, hplace', hplace]
      simp only [htasks', hactive, hjob', hprocessed']
  | draining =>
    cases hactive : s.activeTasks with
    | nil =>
      refine ⟨[.advance], .inl ⟨0, ?_⟩⟩
      have hrun : run env [.advance] s = advance env s := rfl
      rw [hrun, advance, hplace]
      simp only [hactive]
    | cons first rest =>
      refine ⟨_, progress_await hinv hactive .draining ?_⟩
      intro s' hplace' _ _ htasks'
      rw [advance, hplace', hplace]
      simp only [htasks', hactive]
  | ended errorCode => exact ⟨[], .inl ⟨errorCode, hplace⟩⟩

/-- Whatever has happened, the call can end. -/
theorem Inv.ends (hinv : Inv env job tag s) :
    ∃ moves errorCode, (BinaryFileAssimilator.run env moves s).place = .ended errorCode := by
  induction hleft : left s using Nat.strong_induction_on generalizing s with
  | _ n ih =>
    obtain ⟨moves, ⟨errorCode, hended⟩ | hless⟩ := progress hinv
    · exact ⟨moves, errorCode, hended⟩
    · obtain ⟨more, errorCode, hended⟩ := ih _ (hleft ▸ hless) (hinv.run moves) rfl
      refine ⟨moves ++ more, errorCode, ?_⟩
      rw [BinaryFileAssimilator.run, List.foldl_append]
      exact hended

/-! ### The call -/

/-- What a call is asked for. -/
def wanted (env : Env) (ctx : AssimilationCtx) : Job :=
  let contents := env.contents (getUrlPath ctx.src)
  if ctx.rangeSize > 0 then ⟨contents, ctx.rangeOff, ctx.rangeSize⟩
  else ⟨contents, 0, UInt64.ofNat contents.length⟩

/-- A range of the file that is not empty. -/
def Job.InFile (job : Job) : Prop :=
  0 < job.totalSize.toNat ∧ job.chunkOffset.toNat + job.totalSize.toNat ≤ job.contents.length

theorem checks_cases (env : Env) {ctx : AssimilationCtx} (hdepends : ctx.dependsOn = "") :
    (∃ errorCode, checks env ctx = .error errorCode ∧ errorCode ≠ 0) ∨
      (checks env ctx = .ok (wanted env ctx) ∧ 0 < (wanted env ctx).totalSize.toNat) := by
  unfold checks wanted
  by_cases hprotocol : getUrlProtocol ctx.dst ≠ "iowarp"
  · exact .inl ⟨-1, if_pos hprotocol, by decide⟩
  by_cases hname : getUrlPath ctx.dst = ""
  · exact .inl ⟨-2, by rw [if_neg hprotocol, if_pos hname], by decide⟩
  by_cases htag : env.getOrCreateTag = true
  case neg => exact .inl ⟨-3, by rw [if_neg hprotocol, if_neg hname, if_pos htag], by decide⟩
  rw [if_neg hprotocol, if_neg hname, if_neg (not_not_intro htag), if_neg (not_not_intro hdepends)]
  by_cases hsrc : getUrlPath ctx.src = ""
  · exact .inl ⟨-4, by rw [if_pos hsrc], by decide⟩
  simp only [if_neg hsrc]
  by_cases hrange : ctx.rangeSize > 0
  · simp only [if_pos hrange]
    split
    · exact .inl ⟨-5, rfl, by decide⟩
    · split
      · exact .inl ⟨-6, rfl, by decide⟩
      · exact .inr ⟨rfl, hrange⟩
  · simp only [if_neg hrange]
    split
    case isTrue => exact .inl ⟨-5, rfl, by decide⟩
    case isFalse hsize =>
      refine .inr ⟨rfl, Nat.pos_of_ne_zero fun hzero => hsize (UInt64.toNat_inj.mp ?_)⟩
      rw [hzero]
      rfl

/-- The state in front of the loop. -/
theorem inv_start (env : Env) (job : Job) (tag : Tag) :
    Inv env job tag ⟨loopHead job 0, job, ⟨job.chunkOffset.toNat, false, false⟩, 0, [], [], [], tag⟩ where
  same := rfl
  reading _ := by
    refine ⟨rfl, .inl rfl, ?_, ?_, fun i hi => absurd hi (Nat.not_lt_zero i)⟩
    · rw [List.length_nil, Nat.zero_mul, Nat.zero_min]
    · rw [List.length_nil, Nat.zero_mul]
      unfold kMaxChunkSize
      omega
  failing h := absurd h Bool.false_ne_true
  bounded := Nat.zero_le _
  active := ⟨0, Nat.le_refl 0, rfl, fun i hi => absurd hi (Nat.not_lt_zero i)⟩
  submitted i hi := absurd hi List.not_mem_nil
  executed i hi := absurd hi List.not_mem_nil
  untouched i _ := rfl
  waiting h := absurd h (loopHead_ne_waiting 0)
  draining h := (Nat.le_zero.mp (loopHead_draining h)).symm
  ended h := absurd h (loopHead_ne_ended 0 0)

/-- A call that has ended before the loop stays as it is. -/
theorem run_ended {errorCode : Int} (hplace : s.place = .ended errorCode) (hchunks : s.chunks = [])
    (moves : List Move) : run env moves s = s := by
  induction moves with
  | nil => rfl
  | cons move moves ih =>
    have hstep : step env s move = s := by
      cases move with
      | advance => rw [step, advance, hplace]
      | execute chunkIdx => rw [step, execute, hchunks, List.getElem?_nil]
    rw [run, List.foldl_cons, hstep]
    exact ih

/-- A call fails before the loop, or the loop runs for what is wanted. -/
theorem schedule_cases (env : Env) {ctx : AssimilationCtx} (tag : Tag) (hdepends : ctx.dependsOn = "") :
    (∃ errorCode, (schedule env ctx tag).place = .ended errorCode ∧ errorCode ≠ 0 ∧
        (schedule env ctx tag).chunks = []) ∨
      (0 < (wanted env ctx).totalSize.toNat ∧ ∃ described,
        Inv env (wanted env ctx) described (schedule env ctx tag) ∧
          ∀ i, described (chunkName i) = tag (chunkName i)) := by
  unfold schedule
  obtain ⟨errorCode, hchecks, hcode⟩ | ⟨hchecks, htotal⟩ := checks_cases env hdepends
  · rw [hchecks]
    exact .inl ⟨errorCode, rfl, hcode, rfl⟩
  rw [hchecks]
  simp only
  split
  · exact .inl ⟨-9, rfl, by decide, rfl⟩
  split
  · exact .inl ⟨-7, rfl, by decide, rfl⟩
  split
  · exact .inl ⟨-8, rfl, by decide, rfl⟩
  · exact .inr ⟨htotal, _, inv_start env _ _,
      fun i => Function.update_of_ne (chunkName_ne_description i) _ _⟩

/-- **An assimilation that ends with 0 has read the whole range from inside the file, and its
chunk blobs are exactly the range if and only if no earlier chunk blob was longer than its chunk or
behind the last**, whatever order the puts are executed in.  A call can always end, with another
code if the range is not inside the file. -/
theorem schedule_assimilates_iff (env : Env) {ctx : AssimilationCtx} (tag : Tag)
    (hdepends : ctx.dependsOn = "") (moves : List Move) :
    ((run env moves (schedule env ctx tag)).place = .ended 0 →
        (wanted env ctx).InFile ∧
          (Assimilated (wanted env ctx) (run env moves (schedule env ctx tag)).tag ↔
            Fits (wanted env ctx) tag)) ∧
      ∃ more errorCode, (run env more (run env moves (schedule env ctx tag))).place = .ended errorCode ∧
        (¬ (wanted env ctx).InFile → errorCode ≠ 0) := by
  obtain ⟨errorCode, hplace, hcode, hchunks⟩ | ⟨htotal, described, hinv, hsame⟩ :=
    schedule_cases env tag hdepends
  · rw [run_ended hplace hchunks]
    refine ⟨fun h => absurd (hplace.symm.trans h) (ended_ne_ended hcode), [], errorCode, hplace, ?_⟩
    exact fun _ => hcode
  have hrun := hinv.run moves
  refine ⟨fun hended => ?_, ?_⟩
  · have hfits : Fits (wanted env ctx) described ↔ Fits (wanted env ctx) tag := by
      unfold Fits
      simp only [hsame]
    exact ⟨⟨htotal, (hrun.final hended htotal).1⟩, (hrun.assimilated_iff hended htotal).trans hfits⟩
  · obtain ⟨more, errorCode, hended⟩ := hrun.ends
    refine ⟨more, errorCode, hended, fun hout hzero => hout ?_⟩
    subst hzero
    exact ⟨htotal, ((hrun.run more).final hended htotal).1⟩

/-! ### Where nothing fails -/

/-- An environment with one file, in which nothing fails. -/
def plain (file : File) : Env :=
  ⟨fun _ => some file, true, true, file.1.length, true, fun _ => 0, fun _ _ => none⟩

/-- The whole file. -/
def whole : AssimilationCtx := ⟨"file::/f", "iowarp::t", "", 0, 0⟩

variable {file : File}

theorem read_inside (hfail : stream.fail = false) (hinside : stream.pos + n ≤ file.1.length) :
    stream.read (plain file) file.1 n =
      ((file.1.drop stream.pos).take n, { stream with pos := stream.pos + n }) := by
  have hroom : n ≤ ((file.1.take (plain file).readable).drop stream.pos).length := by
    rw [plain, List.take_length, List.length_drop]
    omega
  simp only [IfStream.read, hfail, Bool.false_eq_true, if_false, if_pos hroom]
  rw [plain, List.take_length]

/-- No read was short, and the call has not failed. -/
structure Smooth (s : State) : Prop where
  reads : s.stream.fail = false
  ends : ∀ errorCode, s.place = .ended errorCode → errorCode = 0

theorem Smooth.submit (h : Smooth s) (hinv : Inv (plain file) job tag s)
    (hjob : job.contents = file.1) (hinside : job.InFile) (hplace : s.place = .filling)
    (hmore : s.bytesProcessed < s.job.totalSize.toNat) : Smooth (submit (plain file) s) := by
  obtain rfl := hinv.same
  obtain ⟨hpos, -⟩ := hinv.reading h.reads
  obtain ⟨-, hend⟩ := hinside
  rw [hjob] at hend
  unfold BinaryFileAssimilator.submit
  generalize hsize : min kMaxChunkSize (s.job.totalSize.toNat - s.bytesProcessed) = size
  -- The piece lies inside the range, and so inside the file.
  have hpiece : s.stream.pos + size ≤ file.1.length := by omega
  have hlength : ((file.1.drop s.stream.pos).take size).length = size := by
    rw [List.length_take, List.length_drop]
    omega
  simp only [hjob, read_inside h.reads hpiece]
  rw [if_neg fun hbad => hbad.1 hlength]
  exact ⟨h.reads, fun errorCode hended => absurd (hplace.symm.trans hended) Place.noConfusion⟩

theorem Smooth.await (h : Smooth s) {first : Nat} {rest : List Nat} {next : Place}
    (hnext : ∀ errorCode, next ≠ .ended errorCode) :
    Smooth (await (plain file) s first rest next) := by
  unfold BinaryFileAssimilator.await
  split
  · exact h
  · exact ⟨h.reads, fun errorCode hended => absurd hended (hnext errorCode)⟩

theorem Smooth.step (h : Smooth s) (hinv : Inv (plain file) job tag s)
    (hjob : job.contents = file.1) (hinside : job.InFile) (move : Move) :
    Smooth (step (plain file) s move) := by
  cases move with
  | execute chunkIdx =>
    rw [BinaryFileAssimilator.step, execute]
    split
    · exact h
    · split
      · exact h
      · exact ⟨h.reads, h.ends⟩
  | advance =>
    rw [BinaryFileAssimilator.step, advance]
    cases hplace : s.place with
    | filling =>
      simp only
      split
      case isTrue hmore => exact h.submit hinv hjob hinside hplace hmore.2
      case isFalse =>
        split
        · exact ⟨h.reads, fun errorCode hended => absurd hended (loopHead_ne_ended _ _)⟩
        · exact ⟨h.reads, fun errorCode hended => absurd hended Place.noConfusion⟩
    | waiting =>
      simp only
      split
      · exact h
      · exact h.await fun errorCode => loopHead_ne_ended _ _
    | draining =>
      simp only
      split
      · exact ⟨h.reads, fun errorCode hended => (Place.ended.inj hended).symm⟩
      · exact h.await fun errorCode => Place.noConfusion
    | ended errorCode => exact h

theorem Smooth.run (h : Smooth s) (hinv : Inv (plain file) job tag s)
    (hjob : job.contents = file.1) (hinside : job.InFile) (moves : List Move) :
    Smooth (run (plain file) moves s) := by
  induction moves generalizing s with
  | nil => exact h
  | cons move moves ih => exact ih (h.step hinv hjob hinside move) (hinv.step move)

theorem totalSize_wanted : (wanted (plain file) whole).totalSize.toNat = file.1.length := by
  show (UInt64.ofNat file.1.length).toNat = file.1.length
  rw [UInt64.toNat_ofNat', Nat.mod_eq_of_lt (Nat.lt_trans file.2 (by decide))]

theorem wanted_inFile (hfile : file.1 ≠ []) : (wanted (plain file) whole).InFile := by
  refine ⟨by rw [totalSize_wanted]; exact List.length_pos_iff.mpr hfile, ?_⟩
  rw [totalSize_wanted]
  exact Nat.le_of_eq (Nat.zero_add _)

theorem schedule_plain (hfile : file.1 ≠ []) (tag : Tag) :
    ∃ described, schedule (plain file) whole tag =
      ⟨loopHead (wanted (plain file) whole) 0, wanted (plain file) whole, ⟨0, false, false⟩, 0,
        [], [], [], described⟩ := by
  obtain ⟨hpos, -⟩ := wanted_inFile hfile
  have hsize : UInt64.ofNat file.1.length ≠ 0 := by
    intro hzero
    have hpos : 0 < (UInt64.ofNat file.1.length).toNat := hpos
    rw [hzero] at hpos
    exact absurd hpos (by decide)
  have hchecks : checks (plain file) whole = .ok (wanted (plain file) whole) := by
    unfold checks wanted
    rw [if_neg (by decide), if_neg (by decide), if_neg fun h => h rfl, if_neg (by decide)]
    simp only
    rw [if_neg (by decide), if_neg (by decide)]
    exact (if_neg hsize).trans (congrArg Except.ok (if_neg (by decide)).symm)
  have hseeks : (plain file).seeks = true ∧ (wanted (plain file) whole).chunkOffset.toNat < 2 ^ 63 :=
    ⟨rfl, Nat.two_pow_pos 63⟩
  refine ⟨putBlob (plain file) "description"
    (wanted (plain file) whole).description.toUTF8.toList tag, ?_⟩
  unfold schedule
  rw [hchecks]
  simp only
  rw [if_neg fun h => h rfl, if_neg fun h => h rfl, if_neg (not_not_intro hseeks)]
  rfl

/-- A call in which nothing fails ends with no other code than 0. -/
theorem plain_ends (hfile : file.1 ≠ []) (tag : Tag) (moves : List Move) {errorCode : Int}
    (hended : (run (plain file) moves (schedule (plain file) whole tag)).place = .ended errorCode) :
    errorCode = 0 := by
  obtain ⟨described, hstart⟩ := schedule_plain hfile tag
  rw [hstart] at hended
  have hsmooth : Smooth ⟨loopHead (wanted (plain file) whole) 0, wanted (plain file) whole,
      ⟨0, false, false⟩, 0, [], [], [], described⟩ :=
    ⟨rfl, fun errorCode hended => absurd hended (loopHead_ne_ended _ _)⟩
  exact (hsmooth.run (inv_start _ _ _) rfl (wanted_inFile hfile) moves).ends errorCode hended

/-- 41 chunks, the last one of three bytes. -/
def large : File :=
  ⟨List.replicate (40 * kMaxChunkSize + 3) 7, by
    rw [List.length_replicate]
    decide⟩

/-- The loop fills its window and waits, and the store executes the puts backwards. -/
def fullWindow : List Move :=
  List.replicate 33 .advance ++ (List.range 32).reverse.map .execute

/-- The call goes on to its end and has put all the chunks of a fresh tag. -/
theorem schedule_assimilates_window :
    (wanted (plain large) whole).numChunks = 41 ∧ ∃ more,
      Assimilated (wanted (plain large) whole)
        (run (plain large) (fullWindow ++ more)
          (schedule (plain large) whole fun _ => none)).tag := by
  have hlength : large.1.length = 40 * kMaxChunkSize + 3 := List.length_replicate
  have hfile : large.1 ≠ [] := by
    rw [← List.length_pos_iff, hlength]
    decide
  have hrun : ∀ more, run (plain large) (fullWindow ++ more)
      (schedule (plain large) whole fun _ => none) = run (plain large) more
        (run (plain large) fullWindow (schedule (plain large) whole fun _ => none)) :=
    fun more => List.foldl_append
  refine ⟨?_, ?_⟩
  · rw [Job.numChunks, totalSize_wanted, hlength]
    rfl
  · obtain ⟨more, errorCode, hended, -⟩ :=
      (@schedule_assimilates_iff (plain large) whole (fun _ => none) rfl fullWindow).2
    rw [← hrun more] at hended
    obtain rfl := plain_ends hfile _ _ hended
    have hfits : Fits (wanted (plain large) whole) fun _ => none :=
      ⟨fun _ _ => Nat.zero_le _, fun _ _ => rfl⟩
    exact ⟨more, ((schedule_assimilates_iff (plain large) (fun _ => none) rfl
      (fullWindow ++ more)).1 hended).2.mpr hfits⟩

/-- A file of one byte. -/
def oneByte : File := ⟨[7], Nat.one_lt_two_pow (Nat.succ_ne_zero 62)⟩

/-- Its chunk is put, waited for, and the call ends. -/
def oneChunk : List Move := [.advance, .advance, .execute 0, .advance, .advance]

/-- Of a chunk blob that was longer the tail stays. -/
theorem tail_stays : ¬ ∀ (env : Env) (ctx : AssimilationCtx) (tag : Tag), ctx.dependsOn = "" →
    ∀ moves, (run env moves (schedule env ctx tag)).place = .ended 0 →
      Assimilated (wanted env ctx) (run env moves (schedule env ctx tag)).tag := by
  intro hclaim
  have hexact := (hclaim (plain oneByte) whole
    (fun blobName => if blobName = "chunk_0" then some [1, 2] else none) rfl oneChunk rfl).1
  exact absurd hexact (by decide)

end BinaryFileAssimilator

end IowarpCore
