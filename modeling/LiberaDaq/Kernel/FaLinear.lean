import LiberaDaq.Kernel.FaParams

/-!
# The parameters of the fast application, in any order of calls

Each call of `cspi_setenvparam_fa` and `cspi_getenvparam_fa` takes effect at once, at its transfer:
there is a log of puts and takes that agrees with the block, in which every call has one entry, or
none if it failed (`fa_linear`). From this follows the round trip (`fa_round_trip`).
-/

namespace LiberaDaq.Kernel

open LiberaDaq.Cspi LiberaDaq.Interaction LiberaDaq.Memory Prog

variable {init : ℕ → Word} {u u' u₁ : FaWorld} {f : Filp} {r : BlockRequest} {x : BlockAnswer}

/-! ## The log -/

namespace FaWorld

/-- The entries of the log. -/
def ops (u : FaWorld) : List (ArrayOp Word) := u.log.map Prod.snd

/-- The words of the block, as the log says. -/
def words (init : ℕ → Word) (u : FaWorld) : ℕ → Word := u.ops.foldl ArrayOp.apply init

/-- The block, as an array with the positions of the files. -/
def array (init : ℕ → Word) (u : FaWorld) : WordArray :=
  ⟨u.words init, fun f => (u.block.fPos f).toNat⟩

end FaWorld

/-- The block is as the log says, and the log agrees with itself. -/
structure FaInv (init : ℕ → Word) (u : FaWorld) : Prop where
  represents : Represents faiBlock u.block (u.array init)
  agrees : Along ArrayOp.apply ArrayOp.Agrees init u.ops

/-- The array of a request follows its entry in the log. -/
theorem step_word (a : WordArray) : (a.step (f, r, x)).word =
    (faEntry (a.pos f) r x).toList.foldl ArrayOp.apply a.word := by
  cases r with
  | lseek off whence =>
    simp only [WordArray.step, faEntry]
    split <;> rfl
  | read count locked copied =>
    simp only [WordArray.step, faEntry]
    split <;> rfl
  | write data count locked fault =>
    simp only [WordArray.step, faEntry]
    split
    · rfl
    · funext j
      simp only [Option.toList_some, List.foldl_cons, List.foldl_nil, WordArray.moveOn,
        WordArray.replace, ArrayOp.apply]
      by_cases hj : a.pos f / 4 ≤ j
      · by_cases hn : j < a.pos f / 4 + x.ret.toNat / 4
        · have hlt : j - a.pos f / 4 < x.ret.toNat / 4 := by omega
          simp [hj, hn, hlt]
        · have hge : x.ret.toNat / 4 ≤ j - a.pos f / 4 := by omega
          simp [hj, hn, hge]
      · simp [hj]

/-- What a correct read returns agrees with the array. -/
theorem correct_agrees {a : WordArray} {n : ℕ} (h : a.Correct n (f, r, x)) :
    Along ArrayOp.apply ArrayOp.Agrees a.word (faEntry (a.pos f) r x).toList := by
  cases r with
  | lseek => trivial
  | read count locked copied =>
    simp only [faEntry]
    split
    · trivial
    · next hret =>
      refine ⟨fun k hk => ?_, trivial⟩
      simp [(h (not_lt.1 hret)).2.2.2]
  | write data count locked fault =>
    simp only [faEntry]
    split
    · trivial
    · exact ⟨trivial, trivial⟩

/-- A request moves no other file. -/
theorem step_pos_of_ne {a : WordArray} {f' : Filp} (h : f' ≠ f) :
    (a.step (f, r, x)).pos f' = a.pos f' := by
  cases r with
  | lseek | read | write =>
    simp only [WordArray.step]
    split
    · rfl
    · exact Function.update_of_ne h ..

namespace FaInv

theorem ops_request (u : FaWorld) (mine : Bool) (f : Filp) (r : BlockRequest) :
    (u.request mine f r).2.ops = u.ops ++
      (faEntry (u.block.fPos f).toNat r (u.request mine f r).1).toList := by
  simp [FaWorld.request, FaWorld.ops]

/-- A request keeps the invariant. -/
theorem request (h : FaInv init u) (mine : Bool) (f : Filp) (r : BlockRequest) :
    FaInv init (u.request mine f r).2 ∧
      (u.array init).Correct faiBlock.size (f, r, (u.request mine f r).1) := by
  obtain ⟨hcorrect, hnext⟩ := Represents.serve (d := .fa) h.represents f r
  refine ⟨⟨?_, ?_⟩, hcorrect⟩
  · have harray : (u.request mine f r).2.array init =
        (u.array init).step (f, r, (u.request mine f r).1) := by
      have hword := step_word (f := f) (r := r) (x := (u.request mine f r).1) (u.array init)
      have hpos : ((u.request mine f r).2.array init).pos =
          ((u.array init).step (f, r, (u.request mine f r).1)).pos := funext hnext.pos
      have hwords : ((u.request mine f r).2.array init).word =
          ((u.array init).step (f, r, (u.request mine f r).1)).word := by
        rw [hword, FaWorld.array, FaWorld.words, ops_request, List.foldl_append]
        rfl
      cases hstep : (u.array init).step (f, r, (u.request mine f r).1) with
      | mk word pos =>
        rw [hstep] at hpos hwords
        rw [FaWorld.array, WordArray.mk.injEq]
        exact ⟨hwords, hpos⟩
    rw [harray]
    exact hnext
  · rw [ops_request, along_append]
    exact ⟨h.agrees, correct_agrees hcorrect⟩

/-- A file that was just opened is at the start of the block. -/
theorem opened (h : FaInv init u) (f : Filp) (mode : FMode) : FaInv init (u.opened f mode) := by
  refine ⟨?_, h.agrees⟩
  have harray : (u.opened f mode).array init =
      { u.array init with pos := Function.update (u.array init).pos f 0 } := by
    rw [FaWorld.array, WordArray.mk.injEq]
    refine ⟨rfl, funext fun f' => ?_⟩
    by_cases hf : f' = f
    · subst hf
      simp [FaWorld.opened]
    · simp [FaWorld.opened, FaWorld.array, hf]
  rw [harray]
  exact h.represents.setPos f rfl (Nat.zero_le _) rfl

theorem foreign (h : FaInv init u) (hf : Foreign u u') : FaInv init u' := by
  cases hf with
  | openFile file mode => exact h.opened file mode
  | close => exact ⟨h.represents, h.agrees⟩
  | request file mode r => exact (h.request false file r).1

end FaInv

/-! ## The answers of the device -/

namespace Represents

variable {b : Block} {s : BlockWorld} {a : WordArray} {file : Filp} {count : Word}

theorem clip_eq (h : Represents b s a) (file : Filp) (count : Word) :
    b.clip (s.fPos file) count = min count.toNat (b.size - a.pos file) := by
  have hle := h.pos_le file
  rw [Block.clip, h.toInt_pos]
  split_ifs <;> omega

/-- What a read that is not refused returns. -/
theorem read_ret (h : Represents b s a) {locked copied : Bool}
    (hret : 0 ≤ (b.read s file count locked copied).1.ret) :
    (b.read s file count locked copied).1.ret = min count.toNat (b.size - a.pos file) := by
  have hend := h.toInt_pos file
  unfold Block.read at hret ⊢
  dsimp only at hret ⊢
  rw [h.clip_eq] at hret ⊢
  split_ifs at hret ⊢ with h₁ h₂ h₃ h₄
  · cases hret
  · dsimp only
    omega
  · cases hret
  · cases hret
  · rfl

/-- A read that is refused gives nothing to the process. -/
theorem read_refused {locked copied : Bool}
    (hret : ¬0 ≤ (b.read s file count locked copied).1.ret) :
    (b.read s file count locked copied).1.data = [] := by
  unfold Block.read at hret ⊢
  dsimp only at hret ⊢
  split_ifs at hret ⊢
  · rfl
  · rfl
  · rfl
  · rfl
  · exact absurd (Int.natCast_nonneg _) hret

/-- What a write that is not refused returns. -/
theorem write_ret (h : Represents b s a) {data : ℕ → Word} {locked : Bool}
    {fault : Option (ℕ → Word)} (hret : 0 ≤ (b.write s file data count locked fault).1.ret) :
    (b.write s file data count locked fault).1.ret = min count.toNat (b.size - a.pos file) := by
  have hend := h.toInt_pos file
  unfold Block.write at hret ⊢
  dsimp only at hret ⊢
  rw [h.clip_eq] at hret ⊢
  split_ifs at hret ⊢ with h₁ h₂ h₃
  · cases hret
  · dsimp only
    omega
  · cases hret
  · cases fault with
    | none => rfl
    | some left => cases hret

/-- What a successful `lseek` returns, and where the file is then. -/
theorem llseek_ret {off : BitVec 64} (hret : 0 ≤ (b.llseek s file off 0).1.ret) :
    (b.llseek s file off 0).1.ret = off.toInt ∧ off.toInt ≤ b.size ∧ off.toInt % 4 = 0 ∧
      (b.llseek s file off 0).2.fPos file = off := by
  have hnew : b.newPos (s.fPos file) off 0 = some off := rfl
  simp only [Block.llseek, hnew] at hret ⊢
  split_ifs at hret ⊢ with h₁ h₂
  · cases hret
  · cases hret
  · exact ⟨rfl, not_lt.1 (not_or.1 h₁).2, not_not.1 h₂, Function.update_self ..⟩

end Represents

/-! ## The file of a call -/

/-- The entries that were added to the log, and those of them that are of a call. -/
def Adds (u u' : FaWorld) (es : List (ArrayOp Word)) : Prop :=
  ∃ new, u'.log = u.log ++ new ∧ (new.filter Prod.fst).map Prod.snd = es

theorem Adds.refl (u : FaWorld) : Adds u u [] := ⟨[], (List.append_nil _).symm, rfl⟩

theorem Adds.trans {es es' : List (ArrayOp Word)} (h : Adds u u₁ es) (h' : Adds u₁ u' es') :
    Adds u u' (es ++ es') := by
  obtain ⟨new, hlog, rfl⟩ := h
  obtain ⟨new', hlog', rfl⟩ := h'
  exact ⟨new ++ new', by rw [hlog', hlog, List.append_assoc], by simp⟩

theorem own_entries (o : Option (ArrayOp Word)) :
    ((o.toList.map (true, ·)).filter Prod.fst).map Prod.snd = o.toList := by
  cases o with
  | none | some => rfl

theorem foreign_entries (o : Option (ArrayOp Word)) :
    ((o.toList.map (false, ·)).filter Prod.fst).map Prod.snd = [] := by
  cases o with
  | none | some => rfl

theorem adds_request (u : FaWorld) (f : Filp) (r : BlockRequest) :
    Adds u (u.request true f r).2
      (faEntry (u.block.fPos f).toNat r (u.request true f r).1).toList :=
  ⟨_, rfl, own_entries _⟩

theorem adds_foreign (h : Foreign u u') : Adds u u' [] := by
  cases h with
  | openFile | close => exact .refl u
  | request file mode r => exact ⟨_, rfl, foreign_entries _⟩

theorem FaInv.foreigns (h : FaInv init u) (hf : Relation.ReflTransGen Foreign u u') :
    FaInv init u' ∧ u'.own = u.own ∧ Adds u u' [] := by
  induction hf with
  | refl => exact ⟨h, rfl, .refl u⟩
  | tail _ hf ih =>
    obtain ⟨hinv, hown, hadds⟩ := ih
    refine ⟨hinv.foreign hf, ?_, hadds.trans (adds_foreign hf)⟩
    cases hf with
    | openFile | close | request => exact hown

/-- A call works with a file, which is at a position. -/
structure AtFile (init : ℕ → Word) (f : Filp) (pos : ℕ) (u : FaWorld) : Prop where
  inv : FaInv init u
  own : u.own = some f
  opened : u.files f ≠ none
  pos : (u.block.fPos f).toNat = pos

variable {pos : ℕ} {es : List (ArrayOp Word)}

/-- Other processes leave the file of a call alone. -/
theorem AtFile.foreign (h : AtFile init f pos u) (hf : Foreign u u') :
    AtFile init f pos u' ∧ Adds u u' [] := by
  refine ⟨⟨h.inv.foreign hf, ?_, ?_, ?_⟩, adds_foreign hf⟩
  · cases hf with
    | openFile | close | request => exact h.own
  · cases hf with
    | openFile file mode hnew =>
      have hne : f ≠ file := fun hf => h.opened (hf ▸ hnew)
      simpa [FaWorld.opened, hne] using h.opened
    | close file mode hfile hown =>
      have hne : f ≠ file := fun hf => hown (hf ▸ h.own)
      simpa [FaWorld.closed, hne] using h.opened
    | request => exact h.opened
  · cases hf with
    | openFile file mode hnew =>
      have hne : f ≠ file := fun hf => h.opened (hf ▸ hnew)
      simpa [FaWorld.opened, hne] using h.pos
    | close => exact h.pos
    | request file mode r hfile hmode hown =>
      have hne : f ≠ file := fun hf => hown (hf ▸ h.own)
      have hnext := (Represents.serve (d := .fa) h.inv.represents file r).2.pos f
      rw [step_pos_of_ne hne] at hnext
      exact hnext.trans h.pos

theorem AtFile.foreigns (h : AtFile init f pos u) (hf : Relation.ReflTransGen Foreign u u') :
    AtFile init f pos u' ∧ Adds u u' [] := by
  induction hf with
  | refl => exact ⟨h, .refl u⟩
  | tail _ hf ih =>
    obtain ⟨hnext, hadds⟩ := ih.1.foreign hf
    exact ⟨hnext, ih.2.trans hadds⟩

/-- A request of the call itself. -/
theorem AtFile.request (h : AtFile init f pos u) (r : BlockRequest) :
    AtFile init f ((u.request true f r).2.block.fPos f).toNat (u.request true f r).2 ∧
      Adds u (u.request true f r).2 (faEntry pos r (u.request true f r).1).toList := by
  refine ⟨⟨(h.inv.request true f r).1, h.own, h.opened, rfl⟩, ?_⟩
  rw [← h.pos]
  exact adds_request u f r

/-! ## The transfers -/

theorem FaArgs.bytes_mod {a : FaArgs} (h : a.size.toNat % 4 = 0) : a.bytes.toNat % 4 = 0 := by
  rw [FaArgs.bytes, BitVec.toNat_mul, Nat.mod_mod_of_dvd _ (by norm_num), Nat.mul_mod, h]
  simp

/-- The code for what the device returns: a refusal is never taken for the number of bytes. -/
theorem FaArgs.code_ssize {a : FaArgs} (h : a.size.toNat % 4 = 0) {ret : ℤ}
    (hret : 0 ≤ ret → ret = min a.bytes.toNat a.room) :
    a.code (ssize ret) = if 0 ≤ ret then a.outcome else cspiESystem := by
  have hmod := a.bytes_mod h
  have hroom : a.room ≤ faiBlock.size := Nat.sub_le _ _
  have hsize : faiBlock.size = 81920 := rfl
  rw [FaArgs.code, ssize]
  split
  · next hneg =>
    rw [if_neg (not_le.2 hneg), if_neg]
    intro heq
    rw [heq] at hmod
    exact absurd hmod (by decide)
  · next hneg =>
    rw [if_pos (not_lt.1 hneg), FaArgs.outcome, hret (not_lt.1 hneg)]
    congr 1
    rw [BitVec.toNat_eq]
    have hto : (BitVec.ofInt 32 ((min a.bytes.toNat a.room : ℕ) : ℤ)).toNat =
        min a.bytes.toNat a.room := by
      rw [BitVec.ofInt_natCast, BitVec.toNat_ofNat]
      exact Nat.mod_eq_of_lt (by omega)
    rw [hto, eq_iff_iff]
    omega

theorem FaArgs.code_refused {a : FaArgs} (h : a.size.toNat % 4 = 0) : a.code (-1) = cspiESystem := by
  have hcode : a.code (ssize (-1)) = if (0 : ℤ) ≤ -1 then a.outcome else cspiESystem :=
    a.code_ssize h fun hret => absurd hret (by decide)
  rw [if_neg (by decide)] at hcode
  exact hcode

/-- What a call has done so far: it still has its file, and its entries are lawful for what it is to
return. -/
def Transferred (init : ℕ → Word) (op : FaOp) (f : Filp) (u : FaWorld) (out : ℤ × List Word)
    (u' : FaWorld) : Prop :=
  (∃ pos, AtFile init f pos u') ∧ ∃ es, Adds u u' es ∧ FaLaw op out es

/-- What a call has done in the end. -/
def Called (init : ℕ → Word) (op : FaOp) (u : FaWorld) (out : ℤ × List Word) (u' : FaWorld) :
    Prop := FaInv init u' ∧ u'.own = none ∧ ∃ es, Adds u u' es ∧ FaLaw op out es

variable {a : FaArgs} {op : FaOp}

/-- An offset that is not negative as an `off_t`. -/
theorem toNat_signExtend {w : Word} (h : 0 ≤ w.toInt) :
    w.toInt = w.toNat ∧ (w.signExtend 64).toNat = w.toNat := by
  have hint : (w.signExtend 64).toInt = w.toInt := BitVec.toInt_signExtend_of_le (by omega)
  have hcond := BitVec.toInt_eq_toNat_cond w
  have hcond' := BitVec.toInt_eq_toNat_cond (w.signExtend 64)
  have hlt := w.isLt
  have hlt' := (w.signExtend 64).isLt
  split_ifs at hcond hcond' <;> omega

theorem wlp_placed {transfer : FaProg (ℤ × List Word)} (hu : AtFile init f pos u₁)
    (hadds : Adds u u₁ []) (hrefused : FaLaw op (cspiESystem, []) [])
    (ht : ∀ v, AtFile init f a.offset.toNat v → a.InBlock → Adds u v [] →
      transfer.wlp faServe (Transferred init op f u) v) :
    (a.placed f transfer).wlp faServe (Transferred init op f u) u₁ := by
  rintro ok _ ⟨v, hv, rfl, rfl⟩
  obtain ⟨hat, hmore⟩ := hu.foreigns hv
  obtain ⟨hnext, hnone⟩ := hat.request (.lseek (a.offset.signExtend 64) 0)
  have hadds' := (hadds.trans hmore).trans hnone
  by_cases hret : 0 ≤ (v.request true f (.lseek (a.offset.signExtend 64) 0)).1.ret
  · rw [decide_eq_true hret]
    obtain ⟨heq, hle, hmod, hpos⟩ := Represents.llseek_ret hret
    have hint : (a.offset.signExtend 64).toInt = a.offset.toInt :=
      BitVec.toInt_signExtend_of_le (by omega)
    have hnonneg : 0 ≤ a.offset.toInt := hint ▸ heq ▸ hret
    obtain ⟨hnat, hnat'⟩ := toNat_signExtend hnonneg
    rw [hint, hnat] at hle hmod
    have hplace : ((v.request true f (.lseek (a.offset.signExtend 64) 0)).2.block.fPos f).toNat =
        a.offset.toNat := (congrArg BitVec.toNat hpos).trans hnat'
    rw [hplace] at hnext
    exact ht _ hnext ⟨by exact_mod_cast hle, by exact_mod_cast hmod⟩ hadds'
  · rw [decide_eq_false hret]
    exact ⟨⟨_, hnext⟩, [], hadds', hrefused⟩

/-- The transfer of `cspi_setenvparam_fa`. -/
theorem wlp_setTransfer {data : ℕ → Word} (hargs : a.Proper true) (hin : a.InBlock)
    (hu : AtFile init f a.offset.toNat u₁) (hadds : Adds u u₁ []) :
    Prog.wlp faServe (do
      let n ← facall (.write f data a.bytes)
      Pure.pure (a.code n, [])) (Transferred init (.set a (some data)) f u) u₁ := by
  rintro n u' ⟨v, hv, hx⟩
  obtain ⟨hat, hmore⟩ := hu.foreigns hv
  have hrefusal : a.refusal true = cspiESystem := by
    simp [FaArgs.refusal, hargs.1, hargs.2.2]
  have hrefused : FaLaw (.set a (some data)) (cspiESystem, []) [] :=
    hrefusal ▸ .setRefused a (some data)
  obtain ⟨rfl, rfl⟩ | ⟨locked, fault, rfl, rfl⟩ := hx
  · change Transferred _ _ _ _ (a.code (-1), []) _
    rw [a.code_refused hargs.2.2]
    exact ⟨⟨_, hat⟩, [], hadds.trans hmore, hrefused⟩
  · obtain ⟨hnext, hentry⟩ := hat.request (.write data a.bytes locked fault)
    have hret : 0 ≤ (v.request true f (.write data a.bytes locked fault)).1.ret →
        (v.request true f (.write data a.bytes locked fault)).1.ret =
          min a.bytes.toNat a.room := by
      intro hret
      rw [FaArgs.room, ← hat.pos]
      exact Represents.write_ret hat.inv.represents hret
    refine ⟨⟨_, hnext⟩, _, (hadds.trans hmore).trans hentry, ?_⟩
    rw [a.code_ssize hargs.2.2 hret]
    by_cases hok : 0 ≤ (v.request true f (.write data a.bytes locked fault)).1.ret
    · have hwords : (v.request true f (.write data a.bytes locked fault)).1.ret.toNat / 4 =
          a.words := by
        rw [hret hok, FaArgs.words]
        omega
      simp only [faEntry]
      rw [if_pos hok, if_neg (not_lt.2 hok), hwords]
      exact .set a data hargs hin
    · simp only [faEntry]
      rw [if_neg hok, if_pos (not_le.1 hok)]
      exact hrefused

/-- The transfer of `cspi_getenvparam_fa`. -/
theorem wlp_getTransfer (hargs : a.Proper true) (hin : a.InBlock)
    (hu : AtFile init f a.offset.toNat u₁) (hadds : Adds u u₁ []) :
    Prog.wlp faServe (do
      let (n, data) ← facall (.read f a.bytes)
      Pure.pure (a.code n, data)) (Transferred init (.get a true) f u) u₁ := by
  rintro ⟨n, ws⟩ u' ⟨v, hv, hx⟩
  obtain ⟨hat, hmore⟩ := hu.foreigns hv
  have hrefusal : a.refusal true = cspiESystem := by
    simp [FaArgs.refusal, hargs.1, hargs.2.2]
  have hrefused : FaLaw (.get a true) (cspiESystem, []) [] := hrefusal ▸ .getRefused a true
  obtain ⟨hn, rfl⟩ | ⟨locked, copied, hn, rfl⟩ := hx
  · obtain ⟨rfl, rfl⟩ := Prod.mk.inj hn
    change Transferred _ _ _ _ (a.code (-1), []) _
    rw [a.code_refused hargs.2.2]
    exact ⟨⟨_, hat⟩, [], hadds.trans hmore, hrefused⟩
  · obtain ⟨rfl, rfl⟩ := Prod.mk.inj hn
    obtain ⟨hnext, hentry⟩ := hat.request (.read a.bytes locked copied)
    have hcorrect := (hat.inv.request true f (.read a.bytes locked copied)).2
    have hret : 0 ≤ (v.request true f (.read a.bytes locked copied)).1.ret →
        (v.request true f (.read a.bytes locked copied)).1.ret = min a.bytes.toNat a.room := by
      intro hret
      rw [FaArgs.room, ← hat.pos]
      exact Represents.read_ret hat.inv.represents hret
    refine ⟨⟨_, hnext⟩, _, (hadds.trans hmore).trans hentry, ?_⟩
    rw [a.code_ssize hargs.2.2 hret]
    by_cases hok : 0 ≤ (v.request true f (.read a.bytes locked copied)).1.ret
    · have hlen : (v.request true f (.read a.bytes locked copied)).1.data.length = a.words := by
        rw [(hcorrect hok).2.2.2, List.length_map, List.length_range, hret hok, FaArgs.words]
        omega
      simp only [faEntry]
      rw [if_pos hok, if_neg (not_lt.2 hok)]
      exact .get a _ hargs hin hlen
    · simp only [faEntry]
      rw [if_neg hok, if_pos (not_le.1 hok)]
      have hdata : (v.request true f (.read a.bytes locked copied)).1.data = [] :=
        Represents.read_refused hok
      rw [hdata]
      exact hrefused

/-! ## The calls -/

/-- What the two calls have in common. -/
theorem wlp_faRun {pbuf write : Bool} {transfer : Filp → FaProg (ℤ × List Word)}
    (hu : FaInv init u) (hown : u.own = none) (hrefused : FaLaw op (a.refusal pbuf, []) [])
    (ht : a.Proper pbuf → ∀ f v, AtFile init f a.offset.toNat v → a.InBlock → Adds u v [] →
      (transfer f).wlp faServe (Transferred init op f u) v) :
    (a.run pbuf write transfer).wlp faServe (Called init op u) u := by
  have hstop : ∀ rc, rc = a.refusal pbuf → Called init op u (rc, []) u := by
    rintro rc rfl
    exact ⟨hu, hown, [], .refl u, hrefused⟩
  rw [FaArgs.run]
  split
  · next hhenv => exact hstop _ (by simp_all [FaArgs.refusal])
  · next hhenv =>
    split
    · next hbuf => exact hstop _ (by simp_all [FaArgs.refusal])
    · next hbuf =>
      split
      · next hsize => exact hstop _ (by simp_all [FaArgs.refusal])
      · next hsize =>
        have hargs : a.Proper pbuf := by simp_all [FaArgs.Proper]
        have hsystem : a.refusal pbuf = cspiESystem := by simp_all [FaArgs.refusal, FaArgs.Proper]
        rw [hsystem] at hrefused
        rintro fd u₁ ⟨v, hv, hfd⟩
        obtain ⟨hvinv, hvown, hvadds⟩ := hu.foreigns hv
        obtain ⟨rfl, rfl⟩ | ⟨f, rfl, -, -, rfl⟩ := hfd
        · exact ⟨hvinv, hvown.trans hown, [], hvadds, hrefused⟩
        · have hat : AtFile init f 0 { v.opened f (faMode write) with own := some f } := by
            have hopened := hvinv.opened f (faMode write)
            refine ⟨⟨hopened.represents, hopened.agrees⟩, rfl, ?_, ?_⟩
            · simp [FaWorld.opened]
            · simp [FaWorld.opened]
          rintro _ _ ⟨v₁, hv₁, rfl⟩
          obtain ⟨hat₁, hadds₁⟩ := hat.foreigns hv₁
          change (a.placed f (transfer f) >>= _).wlp _ _ _
          refine wlp_seq (wlp_placed hat₁ (hvadds.trans hadds₁) hrefused (ht hargs f)) ?_
          rintro out u₂ ⟨⟨pos, hat₂⟩, es, hadds₂, hlaw⟩
          rintro _ _ ⟨v₃, hv₃, rfl⟩
          obtain ⟨hat₃, hadds₃⟩ := hat₂.foreigns hv₃
          rintro _ _ ⟨v₄, hv₄, mode, -, rfl⟩
          obtain ⟨hat₄, hadds₄⟩ := hat₃.foreigns hv₄
          have hall := (hadds₂.trans hadds₃).trans hadds₄
          rw [List.append_nil, List.append_nil] at hall
          exact ⟨⟨hat₄.inv.represents, hat₄.inv.agrees⟩, rfl, es, hall, hlaw⟩

/-- A call is lawful. -/
theorem wlp_faOp (op : FaOp) (hu : FaInv init u) (hown : u.own = none) :
    op.run.wlp faServe (Called init op u) u := by
  cases op with
  | set a pbuf =>
    apply wlp_faRun hu hown (.setRefused a pbuf)
    intro hargs f v hat hin hadds
    obtain ⟨data, rfl⟩ := Option.isSome_iff_exists.1 hargs.2.1
    exact wlp_setTransfer hargs hin hat hadds
  | get a pbuf =>
    apply wlp_faRun hu hown (.getRefused a pbuf)
    intro hargs f v hat hin hadds
    obtain rfl : pbuf = true := hargs.2.1
    exact wlp_getTransfer hargs hin hat hadds

/-! ## A call as a move -/

abbrev FaMove := Move FaOp (ℤ × List Word) (Unit × FaWorld) (Event FaCall FaAns)

/-- The entries that were added to the log in a move. -/
def faAdded (m : FaMove) : List (Bool × ArrayOp Word) :=
  m.after.2.log.drop m.before.2.log.length

/-- Those of the call itself. -/
def faOwn (m : FaMove) : List (ArrayOp Word) := ((faAdded m).filter Prod.fst).map Prod.snd

/-- The words of the block when the driver was loaded. -/
def firstWords (reg : ℕ → Word) (i : ℕ) : Word := reg (faiBlock.base + 4 * i)

variable {reg : ℕ → Word} {ms : List FaMove} {w : Unit × FaWorld}

theorem faInv_loaded (reg : ℕ → Word) : FaInv (firstWords reg) (.loaded reg) :=
  ⟨represents_start .fa reg, trivial⟩

theorem fa_call {m : FaMove} (hm : m.ServedBy faCall faServe) (hinv : FaInv init m.before.2)
    (hown : m.before.2.own = none) :
    FaLaw m.op m.result (faOwn m) ∧ FaInv init m.after.2 ∧ m.after.2.own = none ∧
      m.after.2.log = m.before.2.log ++ faAdded m := by
  have hcall : Called init m.op m.before.2 m.result m.after.2 :=
    hm.of_wlp (Q := fun out => Called init m.op m.before.2 out.1)
      (wlp_seq (wlp_faOp m.op hinv hown) fun _ _ h => h)
  obtain ⟨hinv', hown', es, ⟨new, hlog, rfl⟩, hlaw⟩ := hcall
  have hadded : faAdded m = new := by rw [faAdded, hlog, List.drop_left]
  rw [faOwn, hadded]
  exact ⟨hlaw, hinv', hown', hlog⟩

/-! ## The entry of a successful call -/

/-- Where the only entry of a call is in what was added to the log. -/
theorem own_single {new : List (Bool × ArrayOp Word)} {e : ArrayOp Word}
    (h : (new.filter Prod.fst).map Prod.snd = [e]) : ∃ l l', new = l ++ (true, e) :: l' ∧
      (∀ x ∈ l, x.1 = false) ∧ ∀ x ∈ l', x.1 = false := by
  obtain ⟨⟨b, e'⟩, hx, rfl⟩ := List.map_eq_singleton_iff.1 h
  obtain ⟨l, l', rfl, hl, hb, hl'⟩ := List.filter_eq_cons_iff.1 hx
  obtain rfl : b = true := hb
  refine ⟨l, l', rfl, fun x hx => by simpa using hl x hx, fun x hx => ?_⟩
  have hnot := List.filter_eq_nil_iff.1 hl' x hx
  simpa using hnot

theorem outcome_ok {a : FaArgs} (h : a.outcome = cspiOk) : a.words = a.bytes.toNat / 4 := by
  rw [FaArgs.outcome] at h
  split at h
  · next hle => rw [FaArgs.words, min_eq_left hle]
  · cases h

theorem refusal_ne_ok {a : FaArgs} {pbuf : Bool} : a.refusal pbuf ≠ cspiOk := by
  rw [FaArgs.refusal]
  split_ifs <;> decide

/-- The entry of a successful `cspi_setenvparam_fa`. -/
theorem own_set {m : FaMove} {a : FaArgs} {data : ℕ → Word} (h : FaLaw m.op m.result (faOwn m))
    (hop : m.op = .set a (some data)) (hok : m.result.1 = cspiOk) :
    faOwn m = [.put (a.offset.toNat / 4) ((List.range (a.bytes.toNat / 4)).map data)] := by
  rw [hop] at h
  generalize m.result = out at h hok
  generalize faOwn m = es at h
  cases h with
  | setRefused => exact absurd hok refusal_ne_ok
  | set => rw [← outcome_ok hok]

/-- The entry of a successful `cspi_getenvparam_fa`. -/
theorem own_get {m : FaMove} {a : FaArgs} (h : FaLaw m.op m.result (faOwn m))
    (hop : m.op = .get a true) (hok : m.result.1 = cspiOk) :
    faOwn m = [.take (a.offset.toNat / 4) m.result.2] ∧
      m.result.2.length = a.bytes.toNat / 4 := by
  rw [hop] at h
  generalize m.result = out at h hok ⊢
  generalize faOwn m = es at h ⊢
  cases h with
  | getRefused => exact absurd hok refusal_ne_ok
  | get _ _ hargs hin hws => exact ⟨rfl, hws.trans (outcome_ok hok)⟩

/-! ## A call after another -/

/-- A system in which nothing is refused but by the device. -/
def faHandler : Handler FaCall FaAns FaWorld
  | .openFa write, u =>
    if u.files 1 = none ∧ (u.dev.openFile true 1 (faMode write)).1 = 0 then
      some (some 1, { u.opened 1 (faMode write) with own := some 1 })
    else none
  | .lseek f offset, u =>
    some (decide (0 ≤ (u.request true f (.lseek (offset.signExtend 64) 0)).1.ret),
      (u.request true f (.lseek (offset.signExtend 64) 0)).2)
  | .write f data n, u =>
    some (ssize (u.request true f (.write data n true none)).1.ret,
      (u.request true f (.write data n true none)).2)
  | .read f n, u =>
    some ((ssize (u.request true f (.read n true true)).1.ret,
      (u.request true f (.read n true true)).1.data), (u.request true f (.read n true true)).2)
  | .close f, u => (u.files f).map fun mode => ((), { u.closed f mode with own := none })
  | .mutexLock, u => some ((), u)
  | .mutexUnlock, u => some ((), u)

theorem faHandler_serves (c : FaCall) (u : FaWorld) (x : FaAns c) (u' : FaWorld)
    (h : faHandler c u = some (x, u')) : faServe c x u u' := by
  refine ⟨u, .refl, ?_⟩
  cases c with
  | openFa write =>
    simp only [faHandler] at h
    split at h
    · next hok =>
      obtain ⟨rfl, rfl⟩ := Prod.mk.inj (Option.some.inj h)
      exact .inr ⟨1, rfl, hok.1, hok.2, rfl⟩
    · cases h
  | lseek =>
    obtain ⟨rfl, rfl⟩ := Prod.mk.inj (Option.some.inj h)
    exact ⟨rfl, rfl⟩
  | write =>
    obtain ⟨rfl, rfl⟩ := Prod.mk.inj (Option.some.inj h)
    exact .inr ⟨true, none, rfl, rfl⟩
  | read =>
    obtain ⟨rfl, rfl⟩ := Prod.mk.inj (Option.some.inj h)
    exact .inr ⟨true, true, rfl, rfl⟩
  | close f =>
    obtain ⟨mode, hmode, hx⟩ := Option.map_eq_some_iff.1 h
    obtain ⟨rfl, rfl⟩ := Prod.mk.inj hx
    exact ⟨mode, hmode, rfl⟩
  | mutexLock | mutexUnlock =>
    obtain ⟨rfl, rfl⟩ := Prod.mk.inj (Option.some.inj h)
    rfl

/-- Three words at the second word of the block. -/
def threeWords : FaArgs := ⟨true, 4, 4, 3⟩

def countUp (i : ℕ) : Word := BitVec.ofNat 32 i

theorem setGet_exec : (((faCall (.set threeWords (some countUp)) ()).exec faHandler
    (.loaded fun _ => 0)).bind fun r => ((faCall (.get threeWords true) ()).exec faHandler
      r.2.1).map fun r' => (r.1.1.1, r'.1.1.1, r'.2.1.log.all Prod.fst)) =
        some (cspiOk, cspiOk, true) := by
  decide +kernel

/-- The words are written, and read back. -/
theorem exists_setGet : ∃ m m' : FaMove,
    Joint faCall faServe Foreign ((), .loaded fun _ => 0) [m, m'] m'.after ∧
      m.ServedBy faCall faServe ∧ m.before = ((), .loaded fun _ => 0) ∧
      m'.ServedBy faCall faServe ∧ m'.before = m.after ∧
      m.op = .set threeWords (some countUp) ∧ m'.op = .get threeWords true ∧
      m.result.1 = cspiOk ∧ m'.result.1 = cspiOk ∧ m'.after.2.log.all Prod.fst = true := by
  obtain ⟨⟨⟨out, _⟩, u, tr⟩, he, hx⟩ := Option.bind_eq_some_iff.1 setGet_exec
  obtain ⟨⟨⟨out', _⟩, u', tr'⟩, he', hx'⟩ := Option.map_eq_some_iff.1 hx
  obtain ⟨hok, hrest⟩ := Prod.mk.inj hx'
  obtain ⟨hok', hown⟩ := Prod.mk.inj hrest
  have hfirst : Joint faCall faServe Foreign ((), .loaded fun _ => 0) _ ((), u) :=
    Joint.exec faHandler_serves (Joint.nil _) (.set threeWords (some countUp)) he
  have hsecond := Joint.exec faHandler_serves hfirst (.get threeWords true) he'
  exact ⟨⟨_, ((), .loaded fun _ => 0), tr, out, ((), u)⟩, ⟨_, ((), u), tr', out', ((), u')⟩,
    hsecond, ⟨exec_runs he, exec_served faHandler_serves he⟩, rfl,
    ⟨exec_runs he', exec_served faHandler_serves he'⟩, rfl, rfl, rfl, hok, hok', hown⟩

/-! ## All calls -/

/-- **The calls take effect one at a time.** In every history of calls, whatever other processes do
with the device in between, there is a log of the transfers that agrees with itself and with the
registers of the block. A call has at most one entry in it, at its offset: as many words as the
product of size and count says, modulo `2 ^ 32`, or up to the end of the block; it returns `CSPI_OK`
exactly if it has an entry and was not cut off. No file of a call stays open. -/
theorem fa_linear (h : Joint faCall faServe Foreign ((), .loaded reg) ms w) :
    (∀ m ∈ ms, FaLaw m.op m.result (faOwn m)) ∧
      Along ArrayOp.apply ArrayOp.Agrees (firstWords reg) w.2.ops ∧
      (∀ i < faiBlock.size / 4, firstWords w.2.block.reg i = w.2.words (firstWords reg) i) ∧
      w.2.own = none := by
  obtain ⟨hlaw, hinv, hown⟩ := Joint.rule (G := fun _ => True)
    (I := fun w => FaInv (firstWords reg) w.2 ∧ w.2.own = none) 
    (P := fun m => FaLaw m.op m.result (faOwn m))
    (fun m hm hI _ => by
      obtain ⟨hlaw, hinv, hown, -⟩ := fa_call hm hI.1 hI.2
      exact ⟨hlaw, hinv, hown⟩)
    (fun _ u u' hI hd => by
      obtain ⟨hinv, hown, -⟩ := hI.1.foreigns (.single hd)
      exact ⟨hinv, hown.trans hI.2⟩)
    h ⟨faInv_loaded reg, rfl⟩ fun _ _ => trivial
  exact ⟨hlaw, hinv.agrees, hinv.represents.word, hown⟩

theorem fa_linear_setGet : ∃ (m m' : FaMove) (w : Unit × FaWorld),
    Joint faCall faServe Foreign ((), .loaded fun _ => 0) [m, m'] w ∧
      faOwn m = [.put 1 ((List.range 3).map countUp)] ∧ w.2.own = none := by
  obtain ⟨m, m', h, -, -, -, -, hset, -, hok, -, -⟩ := exists_setGet
  obtain ⟨hlaw, -, -, hown⟩ := fa_linear h
  exact ⟨m, m', m'.after, h, own_set (hlaw m (by simp)) hset hok, hown⟩

/-- **The round trip.** What a successful `cspi_setenvparam_fa` has written, from any state that can
be reached, the next successful `cspi_getenvparam_fa` at the same place returns, as long as no other
process has written there since. -/
theorem fa_round_trip (h : Joint faCall faServe Foreign ((), .loaded reg) ms w) {m m' : FaMove}
    (hm : m.ServedBy faCall faServe) (hbefore : m.before = w)
    (hothers : Relation.ReflTransGen Foreign m.after.2 m'.before.2)
    (hm' : m'.ServedBy faCall faServe) {a a' : FaArgs} {data : ℕ → Word}
    (hset : m.op = .set a (some data)) (hget : m'.op = .get a' true)
    (hplace : a'.offset = a.offset) (hbytes : a'.bytes = a.bytes)
    (hok : m.result.1 = cspiOk) (hok' : m'.result.1 = cspiOk)
    (hspared : ∀ e ∈ m'.after.2.log.drop w.2.log.length, e.1 = false →
      e.2.Spares (a.offset.toNat / 4) (a.bytes.toNat / 4)) :
    m'.result.2 = (List.range (a.bytes.toNat / 4)).map data := by
  subst hbefore
  obtain ⟨hinv, hown⟩ : FaInv (firstWords reg) m.before.2 ∧ m.before.2.own = none := by
    refine (Joint.rule (G := fun _ => True) (P := fun _ => True)
      (I := fun w => FaInv (firstWords reg) w.2 ∧ w.2.own = none) ?_ ?_ h
      ⟨faInv_loaded reg, rfl⟩ fun _ _ => trivial).2
    · intro m hm hI _
      obtain ⟨-, hinv, hown, -⟩ := fa_call hm hI.1 hI.2
      exact ⟨trivial, hinv, hown⟩
    · intro _ u u' hI hd
      obtain ⟨hinv, hown, -⟩ := hI.1.foreigns (.single hd)
      exact ⟨hinv, hown.trans hI.2⟩
  obtain ⟨hlaw, hinv₁, hown₁, hlog₁⟩ := fa_call hm hinv hown
  obtain ⟨hinv₂, hown₂, between, hlog₂, hnone⟩ := hinv₁.foreigns hothers
  obtain ⟨hlaw', hinv₃, -, hlog₃⟩ := fa_call hm' hinv₂ (hown₂.trans hown₁)
  obtain ⟨htake, hlen⟩ := own_get hlaw' hget hok'
  rw [hplace] at htake
  rw [hbytes] at hlen
  obtain ⟨l₁, l₂, hadded, -, hl₂⟩ := own_single (own_set hlaw hset hok)
  obtain ⟨l₃, l₄, hadded', hl₃, -⟩ := own_single htake
  have hbetween : ∀ x ∈ l₂ ++ between ++ l₃, x.1 = false := by
    have hquiet : ∀ x ∈ between, x.1 = false := by
      intro x hx
      simpa using List.filter_eq_nil_iff.1 (List.map_eq_nil_iff.1 hnone) x hx
    simp only [List.mem_append]
    rintro x ((hx | hx) | hx)
    · exact hl₂ x hx
    · exact hquiet x hx
    · exact hl₃ x hx
  have hlog : m'.after.2.log = m.before.2.log ++ (l₁ ++ (true, .put (a.offset.toNat / 4)
      ((List.range (a.bytes.toNat / 4)).map data)) :: (l₂ ++ between ++ l₃) ++
        (true, .take (a.offset.toNat / 4) m'.result.2) :: l₄) := by
    rw [hlog₃, hlog₂, hlog₁, hadded, hadded']
    simp
  rw [hlog, List.drop_left] at hspared
  have hops : m'.after.2.ops = (m.before.2.ops ++ l₁.map Prod.snd) ++
      ((.put (a.offset.toNat / 4) ((List.range (a.bytes.toNat / 4)).map data) ::
        (l₂ ++ between ++ l₃).map Prod.snd ++ [.take (a.offset.toNat / 4) m'.result.2]) ++
          l₄.map Prod.snd) := by
    rw [FaWorld.ops, hlog]
    simp [FaWorld.ops]
  have hagrees := hinv₃.agrees
  rw [hops] at hagrees
  have hpart := (along_append.1 (along_append.1 hagrees).2).1
  refine ArrayOp.taken_of_put hpart ?_ (by simpa using hlen)
  intro e he
  obtain ⟨x, hx, rfl⟩ := List.mem_map.1 he
  rw [List.length_map, List.length_range]
  refine hspared x ?_ (hbetween x hx)
  exact List.mem_append_left _ (List.mem_append_right _ (List.mem_cons_of_mem _ hx))

theorem fa_round_trip_three : ∃ m' : FaMove, m'.ServedBy faCall faServe ∧
    m'.op = .get threeWords true ∧ m'.result.2 = [0, 1, 2] := by
  obtain ⟨m, m', -, hm, hbefore, hm', hafter, hset, hget, hok, hok', hown⟩ := exists_setGet
  refine ⟨m', hm', hget, (fa_round_trip (Joint.nil _) hm hbefore (hafter ▸ .refl) hm' hset hget
    rfl rfl hok hok' ?_).trans (by decide)⟩
  intro e he hforeign
  have hmine := List.all_eq_true.1 hown e (List.mem_of_mem_drop he)
  exact absurd (hmine.symm.trans hforeign) (by decide)

end LiberaDaq.Kernel
