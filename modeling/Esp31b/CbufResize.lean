import Esp31b.Cbuf
import Esp31b.Machine

/-!
# A `cbuf` of another size

`resize` reads all that is queued into a new block and clears the rest of it.
It refuses a size in which the queued bytes do not fit, but compares with their
number and not with one more: where they fill the new block, `_end` points
behind it, `room` is that of the whole address space, and the next write goes
there.

So resizing keeps the queue and the buffer's invariant exactly when the new size
is not the number of queued bytes (`Cbuf.resize_iff`). `resizeAdd` only grows,
and is always right.
-/

namespace Cbuf

/-- `n` bytes as `new` returns them. -/
def fresh (raw : ℕ → UInt8) (n : ℕ) : List UInt8 := (List.range n).map raw

/-- `resize`, if there is memory; `raw` is what is found in it. -/
def resize (c : Cbuf) (newSize : ℕ) (raw : ℕ → UInt8) : Option (ℕ × Cbuf) := do
  let bytesAvailable := c.available
  if newSize < bytesAvailable ∨ newSize = c.size then return (c.size, c)
  else
    let newbuf := fresh raw newSize
    let (_, bytes, _) ← c.readInto bytesAvailable
    let newbuf ← Block.write newbuf 0 bytes
    let newbuf ← Block.write newbuf bytesAvailable (List.replicate (newSize - bytesAvailable) 0)
    return (newSize, ⟨newSize, newbuf, newSize, 0, bytesAvailable⟩)

/-- `resizeAdd`. -/
def resizeAdd (c : Cbuf) (addSize : ℕ) (raw : ℕ → UInt8) : Option (ℕ × Cbuf) :=
  c.resize ((c.size + addSize) % 2 ^ 32) raw

/-! ## Histories -/

/-- What is done with a buffer. -/
inductive Event where
  | op (op : Op)
  | resize (newSize : UInt32) (raw : ℕ → UInt8)
  | resizeAdd (addSize : UInt32) (raw : ℕ → UInt8)

/-- **A buffer in use.** -/
def resizing : Machine Cbuf Event where
  step c
    | .op op => (c.step op).map Prod.snd
    | .resize newSize raw => (c.resize newSize.toNat raw).map Prod.snd
    | .resizeAdd addSize raw => (c.resizeAdd addSize.toNat raw).map Prod.snd

/-- **The queued bytes do not fill the new block**, and a sum is a size. -/
def Fits (c : Cbuf) : Event → Prop
  | .op _ => True
  | .resize newSize _ => newSize.toNat ≠ c.available
  | .resizeAdd addSize _ => c.size + addSize.toNat < 2 ^ 32

/-- **The data is kept, and the invariant.** What is done with the buffer later
stays in its block. -/
def Kept (c : Cbuf) (r : Option (ℕ × Cbuf)) : Prop :=
  ∃ n d, r = some (n, d) ∧ d.contents = c.contents ∧ d.begin < d.size ∧ d.end < d.size ∧
    d.room = d.size - 1 - d.available ∧ ∀ ops, (cbuf.run d ops).isSome = true

variable {c : Cbuf} {q : List UInt8} {newSize : ℕ}

/-- What holds some bytes is good for all that is done with it. -/
theorem Holds.kept {d : Cbuf} (hc : Holds c q) (hd : Holds d q) (n : ℕ) :
    Kept c (some (n, d)) := by
  have hbounds := hd.layout.bounds
  have hcapacity : d.buf.length = d.buf.length - 1 + 1 := by omega
  have hrefines : Refines d (⟨q, by omega⟩ : BoundedQueue UInt8 (d.buf.length - 1)) :=
    ⟨hd, hcapacity⟩
  refine ⟨n, d, rfl, hd.contents.trans hc.contents.symm, by rw [hd.size]; exact hbounds.1,
    by rw [hd.size]; exact hbounds.2.1, by rw [hd.room, hd.available, hd.size], fun ops => ?_⟩
  obtain ⟨answers, e, r, hrun, -, -⟩ := hrefines.run ops
  rw [hrun]
  rfl

/-- **What `resize` makes**: the queued bytes, and zeros behind them. -/
theorem Holds.resize_eq (h : Holds c q) (raw : ℕ → UInt8) (hle : q.length ≤ newSize)
    (hne : newSize ≠ c.size) :
    c.resize newSize raw =
      some (newSize, ⟨newSize, q ++ List.replicate (newSize - q.length) 0, newSize, 0,
        q.length⟩) := by
  obtain ⟨d, hread, -, -⟩ := h.readInto q.length
  have hlen : (fresh raw newSize).length = newSize := by simp [fresh]
  have hwrite : Block.write (fresh raw newSize) 0 q =
      some (q ++ (fresh raw newSize).drop q.length) := by
    simpa using Block.write_append [] []
      (by rw [hlen]; exact hle : q.length ≤ (fresh raw newSize).length)
  have hclear : Block.write (q ++ (fresh raw newSize).drop q.length) q.length
      (List.replicate (newSize - q.length) 0) =
        some (q ++ List.replicate (newSize - q.length) 0) := by
    have hrest : ((fresh raw newSize).drop q.length).drop (newSize - q.length) = [] := by
      rw [List.drop_drop, List.drop_eq_nil_iff, hlen]
      omega
    have hfit : (List.replicate (newSize - q.length) (0 : UInt8)).length ≤
        ((fresh raw newSize).drop q.length).length := by
      rw [List.length_replicate, List.length_drop, hlen]
    have hclear := Block.write_append q [] hfit
    rwa [List.append_nil, List.append_nil, List.length_replicate, hrest,
      List.append_nil] at hclear
  unfold Cbuf.resize
  simp only [h.available]
  rw [if_neg (by omega), hread, Option.bind_eq_bind, Option.bind_some]
  dsimp only
  rw [List.take_length, hwrite, Option.bind_eq_bind, Option.bind_some, hclear, Option.bind_some]
  rfl

/-- With a place to spare it holds the same bytes. -/
theorem Holds.resized (h : Holds c q) (raw : ℕ → UInt8) (hfits : newSize < 2 ^ 32)
    (hne : newSize ≠ q.length) :
    ∃ n d, c.resize newSize raw = some (n, d) ∧ Holds d q := by
  by_cases hkept : newSize < q.length ∨ newSize = c.size
  · refine ⟨c.size, c, ?_, h⟩
    unfold Cbuf.resize
    simp only [h.available]
    rw [if_pos hkept]
    rfl
  · have hlayout := Layout.straight [] q (List.replicate (newSize - q.length) (0 : UInt8))
      (by rw [← List.length_pos_iff, List.length_replicate]; omega)
    have hlen : (q ++ List.replicate (newSize - q.length) (0 : UInt8)).length = newSize := by
      rw [List.length_append, List.length_replicate]
      omega
    refine ⟨_, _, h.resize_eq raw (by omega) (by omega), hlen.symm,
      hlen.symm, by dsimp only; omega, ?_⟩
    simpa using hlayout

/-- **Without one, `_end` points behind the block.** -/
theorem Holds.not_kept (h : Holds c q) (raw : ℕ → UInt8) (heq : newSize = q.length) :
    ¬ Kept c (c.resize newSize raw) := by
  have hbounds := h.layout.bounds
  rintro ⟨n, d, hd, -, -, hend, -⟩
  rw [h.resize_eq raw (by omega) (by rw [h.size]; omega), Option.some.injEq,
    Prod.mk.injEq] at hd
  rw [← hd.2] at hend
  dsimp only at hend
  omega

theorem Holds.resizedAdd (h : Holds c q) {addSize : ℕ} (raw : ℕ → UInt8)
    (hfits : c.size + addSize < 2 ^ 32) :
    ∃ n d, c.resizeAdd addSize raw = some (n, d) ∧ Holds d q := by
  have hbounds := h.layout.bounds
  unfold Cbuf.resizeAdd
  rw [Nat.mod_eq_of_lt hfits]
  exact h.resized raw hfits (by rw [h.size]; omega)

/-- **Every step keeps the invariant.** -/
theorem holds_step {d : Cbuf} {e : Event} (h : ∃ q, Holds c q) (hfits : Fits c e)
    (hstep : resizing.step c e = some d) :
    ∃ q, Holds d q := by
  obtain ⟨q, h⟩ := h
  have hbounds := h.layout.bounds
  cases e with
  | op op =>
    have hrefines : Refines c (⟨q, by omega⟩ : BoundedQueue UInt8 (c.buf.length - 1)) :=
      ⟨h, by omega⟩
    obtain ⟨d', hd', hR⟩ := hrefines.step op
    obtain ⟨r, hr, rfl⟩ := Option.map_eq_some_iff.mp hstep
    rw [hd'] at hr
    cases hr
    exact ⟨_, hR.holds⟩
  | resize newSize raw =>
    obtain ⟨n, d', hd', hholds⟩ := h.resized raw newSize.toNat_lt (h.available ▸ hfits)
    obtain ⟨r, hr, rfl⟩ := Option.map_eq_some_iff.mp hstep
    rw [hd'] at hr
    cases hr
    exact ⟨q, hholds⟩
  | resizeAdd addSize raw =>
    obtain ⟨n, d', hd', hholds⟩ := h.resizedAdd raw hfits
    obtain ⟨r, hr, rfl⟩ := Option.map_eq_some_iff.mp hstep
    rw [hd'] at hr
    cases hr
    exact ⟨q, hholds⟩

/-- **When resizing keeps the data and the invariant**, after any history that
did so. -/
theorem resize_iff {buf : List UInt8} (hpos : 1 ≤ buf.length) (hfits : buf.length < 2 ^ 32)
    {es : List Event}
    (halong : resizing.Along Fits (init buf) es) (hrun : resizing.run (init buf) es = some c) :
    (∀ (newSize : UInt32) (raw : ℕ → UInt8),
      Kept c (c.resize newSize.toNat raw) ↔ newSize.toNat ≠ c.available) ∧
    ∀ (addSize : UInt32) (raw : ℕ → UInt8), c.size + addSize.toNat < 2 ^ 32 →
      Kept c (c.resizeAdd addSize.toNat raw) := by
  have hinit : ∃ q, Holds (init buf) q := by
    have hsize : buf.length = buf.length - 1 + 1 := by omega
    exact ⟨_, (refines_init hsize hfits).holds⟩
  obtain ⟨q, h⟩ := Machine.invariant_of_along (fun _ _ _ hI hP hs => holds_step hI hP hs)
    hinit halong hrun
  refine ⟨fun newSize raw => ⟨fun hkept heq => ?_, fun hne => ?_⟩, fun addSize raw hsum => ?_⟩
  · exact h.not_kept raw (heq.trans h.available) hkept
  · obtain ⟨n, d, hd, hholds⟩ := h.resized raw newSize.toNat_lt (h.available ▸ hne)
    rw [hd]
    exact h.kept hholds n
  · obtain ⟨n, d, hd, hholds⟩ := h.resizedAdd raw hsum
    rw [hd]
    exact h.kept hholds n

/-- Two queued bytes are moved to three, and there is room for one more. -/
theorem resize_iff_three :
    (∀ (newSize : UInt32) (raw : ℕ → UInt8),
      Kept ⟨3, [1, 2, 0], 3, 0, 2⟩ (resize ⟨3, [1, 2, 0], 3, 0, 2⟩ newSize.toNat raw) ↔
      newSize.toNat ≠ 2) ∧
    ∀ (addSize : UInt32) (raw : ℕ → UInt8), 3 + addSize.toNat < 2 ^ 32 →
      Kept ⟨3, [1, 2, 0], 3, 0, 2⟩ (resizeAdd ⟨3, [1, 2, 0], 3, 0, 2⟩ addSize.toNat raw) :=
  have halong : resizing.Along Fits (init [0, 0, 0, 0])
      [.op (.writeFrom [1, 2]), .resize 3 (fun _ => 7)] :=
    ⟨trivial, fun _ h => by
      cases h
      exact ⟨(by decide : UInt32.toNat 3 ≠ 2), fun _ h => by cases h; trivial⟩⟩
  resize_iff (by decide) (by decide) halong rfl

/-- **Two bytes and no place to spare**: the next byte goes behind the block. -/
theorem not_kept_of_exact :
    ¬ ∀ (buf : List UInt8) (es : List Event) (c : Cbuf), 1 ≤ buf.length →
      resizing.run (init buf) es = some c →
      ∀ (newSize : UInt32) (raw : ℕ → UInt8), Kept c (c.resize newSize.toNat raw) := by
  intro h
  obtain ⟨n, d, hd, -, -, -, -, hops⟩ :=
    h [0, 0, 0, 0] [.op (.writeFrom [1, 2])] ⟨4, [1, 2, 0, 0], 4, 0, 2⟩ (by decide)
      rfl 2 (fun _ => 0)
  have hresize : resize ⟨4, [1, 2, 0, 0], 4, 0, 2⟩ 2 (fun _ => 0) =
      some (2, ⟨2, [1, 2], 2, 0, 2⟩) := rfl
  rw [show UInt32.toNat 2 = 2 from rfl, hresize] at hd
  cases hd
  exact absurd (hops [.write 3]) (by decide)

end Cbuf
