import Mathlib.Data.List.Basic

/-!
# Incremental framing

A framed stream is read by cutting one item after another off its front. A `Reader` is the
rule for one cut: it finds an item, or waits for more input, or gives up on the stream. It is
*incremental* when an item or a give-up found in a prefix of the stream is found in the whole
stream as well; only waiting may change its mind.

`Reader.parse` cuts until it has to wait or gives up. The main result is that an incremental
reader does not see how its input is cut into chunks: `Reader.feed`, which appends one chunk
after another to the unread rest and parses after each, computes what a single parse of the
concatenation computes (`feed_eq_parse`).
-/

namespace Framing

variable {α β : Type*}

/-- The outcome of one attempt to cut an item off the front of the input. -/
inductive Cut (α β : Type*) where
  | item (b : β) (rest : List α)
  | stop
  | wait

/-- An incremental rule for cutting items. -/
structure Reader (α β : Type*) where
  cut : List α → Cut α β
  cut_nil : cut [] = .wait
  shrinks : ∀ {s b r}, cut s = .item b r → r.length < s.length
  item_append : ∀ {s b r}, cut s = .item b r → ∀ t, cut (s ++ t) = .item b (r ++ t)
  stop_append : ∀ {s}, cut s = .stop → ∀ t, cut (s ++ t) = .stop

/-- The items read, whether the reader gave up, and the unread rest. -/
@[ext]
structure Parsed (α β : Type*) where
  items : List β
  stopped : Bool
  rest : List α

/-- Put items read earlier in front. -/
def Parsed.after (items : List β) (p : Parsed α β) : Parsed α β :=
  { p with items := items ++ p.items }

@[simp]
theorem Parsed.after_nil (p : Parsed α β) : p.after [] = p := rfl

@[simp]
theorem Parsed.after_after (xs ys : List β) (p : Parsed α β) :
    (p.after ys).after xs = p.after (xs ++ ys) := by
  simp [Parsed.after]

namespace Reader

variable (r : Reader α β)

/-- Cut items off the input until the reader waits or gives up. -/
def parse (s : List α) : Parsed α β :=
  match _h : r.cut s with
  | .item b rest => (parse rest).after [b]
  | .stop => ⟨[], true, s⟩
  | .wait => ⟨[], false, s⟩
termination_by s.length
decreasing_by exact r.shrinks _h

variable {r} {s t rest : List α} {b : β}

theorem parse_item (h : r.cut s = .item b rest) : r.parse s = (r.parse rest).after [b] := by
  rw [parse]
  split <;> simp_all

theorem parse_stop (h : r.cut s = .stop) : r.parse s = ⟨[], true, s⟩ := by
  rw [parse]
  split <;> simp_all

theorem parse_wait (h : r.cut s = .wait) : r.parse s = ⟨[], false, s⟩ := by
  rw [parse]
  split <;> simp_all

/-- Where a parse stops, the next cut stops too. -/
theorem cut_rest_of_stopped (h : (r.parse s).stopped = true) :
    r.cut (r.parse s).rest = .stop := by
  induction s using Reader.parse.induct r with
  | case1 s b rest hcut ih =>
    rw [parse_item hcut] at h ⊢
    exact ih h
  | case2 s hcut =>
    rw [parse_stop hcut]
    exact hcut
  | case3 s hcut =>
    rw [parse_wait hcut] at h
    cases h

/-- Where a parse waits, the next cut waits too. -/
theorem cut_rest_of_not_stopped (h : (r.parse s).stopped = false) :
    r.cut (r.parse s).rest = .wait := by
  induction s using Reader.parse.induct r with
  | case1 s b rest hcut ih =>
    rw [parse_item hcut] at h ⊢
    exact ih h
  | case2 s hcut =>
    rw [parse_stop hcut] at h
    cases h
  | case3 s hcut =>
    rw [parse_wait hcut]
    exact hcut

/-- If what is cut off is the encoding of the item, then a parse loses nothing: the encodings of
its items and the unread rest are the input. -/
theorem flatten_encode_append_rest {encode : β → List α}
    (hencode : ∀ {s b rest}, r.cut s = .item b rest → s = encode b ++ rest) (s : List α) :
    ((r.parse s).items.map encode).flatten ++ (r.parse s).rest = s := by
  induction s using Reader.parse.induct r with
  | case1 s b rest hcut ih =>
    rw [parse_item hcut]
    change (encode b :: (r.parse rest).items.map encode).flatten ++ (r.parse rest).rest = s
    rw [List.flatten_cons, List.append_assoc, ih, ← hencode hcut]
  | case2 s hcut => rw [parse_stop hcut, List.map_nil, List.flatten_nil, List.nil_append]
  | case3 s hcut => rw [parse_wait hcut, List.map_nil, List.flatten_nil, List.nil_append]

/-- Encodings of items that are cut off again are parsed, and then what follows them. -/
theorem parse_encode_append {encode : β → List α} {items : List β}
    (hcut : ∀ b ∈ items, ∀ t, r.cut (encode b ++ t) = .item b t) (s : List α) :
    r.parse ((items.map encode).flatten ++ s) = (r.parse s).after items := by
  induction items with
  | nil => rfl
  | cons b items ih =>
    rw [List.forall_mem_cons] at hcut
    rw [List.map_cons, List.flatten_cons, List.append_assoc, parse_item (hcut.1 _), ih hcut.2,
      Parsed.after_after, List.singleton_append]

/-- **More input continues the parse.** Parsing a concatenation parses its front, and then
the unread rest of the front with what follows. -/
theorem parse_append (s t : List α) :
    r.parse (s ++ t) = (r.parse ((r.parse s).rest ++ t)).after (r.parse s).items := by
  induction s using Reader.parse.induct r with
  | case1 s b rest hcut ih =>
    rw [parse_item hcut, parse_item (r.item_append hcut t), ih]
    exact Parsed.after_after _ _ _
  | case2 s hcut => rw [parse_stop hcut, Parsed.after_nil]
  | case3 s hcut => rw [parse_wait hcut, Parsed.after_nil]

/-- After a give-up the reader delivers nothing more, whatever follows. -/
theorem parse_rest_of_stopped (h : (r.parse s).stopped = true) (t : List α) :
    r.parse ((r.parse s).rest ++ t) = ⟨[], true, (r.parse s).rest ++ t⟩ :=
  parse_stop (r.stop_append (cut_rest_of_stopped h) t)

/-- A give-up in the front is the end of the parse. -/
theorem parse_append_of_stopped (h : (r.parse s).stopped = true) (t : List α) :
    r.parse (s ++ t) = ⟨(r.parse s).items, true, (r.parse s).rest ++ t⟩ := by
  rw [parse_append, parse_rest_of_stopped h]
  simp [Parsed.after]

variable (r)

/-- One chunk arrives: it is appended to the unread rest, and the result is parsed. -/
def feedChunk (p : Parsed α β) (chunk : List α) : Parsed α β :=
  let q := r.parse (p.rest ++ chunk)
  ⟨p.items ++ q.items, p.stopped || q.stopped, q.rest⟩

/-- Chunks arrive one after the other, starting with nothing read. -/
def feed (chunks : List (List α)) : Parsed α β :=
  chunks.foldl r.feedChunk ⟨[], false, []⟩

variable {r}

/-- One more chunk, after everything so far has been parsed. -/
theorem feedChunk_parse (s chunk : List α) :
    r.feedChunk (r.parse s) chunk = r.parse (s ++ chunk) := by
  rw [feedChunk, parse_append s chunk]
  cases h : (r.parse s).stopped with
  | false => simp [Parsed.after]
  | true =>
    -- the reader gives up on the unread rest again, whatever is appended to it
    rw [parse_rest_of_stopped h]
    simp [Parsed.after]

theorem foldl_feedChunk_parse (s : List α) (chunks : List (List α)) :
    chunks.foldl r.feedChunk (r.parse s) = r.parse (s ++ chunks.flatten) := by
  induction chunks generalizing s with
  | nil => simp
  | cons chunk chunks ih =>
    rw [List.foldl_cons, feedChunk_parse, ih, List.flatten_cons, List.append_assoc]

/-- **Independence of fragmentation.** However the input is cut into chunks, feeding them one
by one is one parse of the whole input. -/
theorem feed_eq_parse (chunks : List (List α)) : r.feed chunks = r.parse chunks.flatten := by
  have hstart : r.parse [] = ⟨[], false, []⟩ := parse_wait r.cut_nil
  rw [feed, ← hstart, foldl_feedChunk_parse, List.nil_append]

end Reader

end Framing
