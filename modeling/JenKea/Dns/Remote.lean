import Mathlib
import JenKea.Dns.Names

/-!
# The DNS servers that the sync writes to

A Pi-hole holds lines `ip name`, and an AdGuard Home holds rewrites of full domains. Both keep every record
that they are given. `Backend` is what the sync needs of either: how a record is written and read, and that
taking one out leaves the others.
-/

namespace JenKea.Dns

open Text

/-- A kind of DNS server. -/
structure Backend where
  /-- A record, as the server holds it. -/
  Rec : Type
  recEq : DecidableEq Rec
  /-- A sync opens a session. -/
  session : Bool
  /-- The name and the address of a record, where it has them. -/
  read : Rec → Option (String × String)
  /-- The record of a name and an address. -/
  record : Name → Address → Rec
  /-- The records after one was deleted. -/
  delete : Rec → List Rec → List Rec
  read_record : ∀ name ip, read (record name ip) = some (name.text, ip.text)
  delete_others : ∀ r records,
    (delete r records).filter (fun x => x ≠ r) = records.filter fun x => x ≠ r

instance (B : Backend) : DecidableEq B.Rec := B.recEq

/-- A record that is written is the record of no other name or address. -/
theorem Backend.record_injective (B : Backend) {name name' : Name} {ip ip' : Address}
    (h : B.record name ip = B.record name' ip') : name = name' ∧ ip = ip' := by
  have hread := congrArg B.read h
  rw [B.read_record, B.read_record, Option.some.injEq, Prod.mk.injEq] at hread
  exact ⟨Name.eq_of_text hread.1, Address.eq_of_text hread.2⟩

/-- Deleting takes out copies of the record, and no other. -/
theorem filter_ne_erase {α : Type} [DecidableEq α] (r : α) (l : List α) :
    (l.erase r).filter (fun x => x ≠ r) = l.filter fun x => x ≠ r := by
  induction l with
  | nil => rfl
  | cons x l ih =>
    by_cases hx : x = r
    · simp [hx]
    · rw [List.erase_cons_tail (by simpa using hx), List.filter_cons, List.filter_cons, ih]

/-! ## Pi-hole -/

/-- `parse_pihole_hosts_line`: the name and the address. -/
def parsePiholeHostsLine (line : String) : Option (String × String) :=
  let cs := (strip line).toList
  let ip := cs.takeWhile fun c => !isSpace c
  let blank := (cs.dropWhile fun c => !isSpace c)
  let name := blank.dropWhile isSpace
  if ip ≠ [] ∧ blank ≠ [] ∧ name ≠ [] ∧ name.all fun c => !isSpace c then
    if (Ipv4.parse (String.ofList ip)).isSome then some (String.ofList name, String.ofList ip)
    else none
  else none

/-- `format_pihole_hosts_line`. -/
def formatPiholeHostsLine (ip name : String) : String := s!"{ip} {name}"

/-- An address has no blank. -/
theorem Address.not_isSpace (a : Address) : ∀ c ∈ a.text.toList, isSpace c = false := by
  intro c hc
  rcases (Ipv4.chars_of_parse a.isIpv4).2 c hc with hdigit | rfl
  · exact isSpace_of_isDigit hdigit
  · exact isSpace_of_printable (by decide) (by decide)

/-- A character of a label is no blank. -/
theorem isSpace_of_isLabelChar {c : Char} (h : isLabelChar c = true) : isSpace c = false := by
  rw [isLabelChar, isAlnum, Bool.or_eq_true, Bool.or_eq_true] at h
  rcases h with (hlower | hdigit) | hdash
  · simp only [Char.isLower, Bool.and_eq_true, decide_eq_true_eq, ge_iff_le,
      UInt32.le_iff_toNat_le] at hlower
    have hlow : 97 ≤ c.toNat := hlower.1
    have hhigh : c.toNat ≤ 122 := hlower.2
    exact isSpace_of_printable (by omega) (by omega)
  · exact isSpace_of_isDigit hdigit
  · rw [beq_iff_eq.mp hdash]
    exact isSpace_of_printable (by decide) (by decide)

/-- A name has no blank. -/
theorem Name.not_isSpace (name : Name) : ∀ c ∈ name.text.toList, isSpace c = false :=
  fun c hc => isSpace_of_isLabelChar (List.all_eq_true.mp name.chars.2 c hc)

/-- A line that is written is read back. -/
theorem parse_formatPiholeHostsLine (name : Name) (ip : Address) :
    parsePiholeHostsLine (formatPiholeHostsLine ip.text name.text) = some (name.text, ip.text) := by
  have hipne : ip.text.toList ≠ [] := (Ipv4.chars_of_parse ip.isIpv4).1
  have hnamene : name.text.toList ≠ [] := name.chars.1
  have hline : (formatPiholeHostsLine ip.text name.text).toList =
      ip.text.toList ++ ' ' :: name.text.toList := by
    simp [formatPiholeHostsLine, toString]
  obtain ⟨c, cs, hip⟩ := List.exists_cons_of_ne_nil hipne
  have hc : isSpace c = false := ip.not_isSpace c (by simp [hip])
  -- neither end of the line is blank
  have hstrip : strip (formatPiholeHostsLine ip.text name.text) =
      formatPiholeHostsLine ip.text name.text := by
    have hlast := List.getLast?_eq_some_getLast hnamene
    refine strip_of_ends (c := c) (d := name.text.toList.getLast hnamene) ?_ ?_ hc
      (name.not_isSpace _ (List.getLast_mem hnamene))
    · rw [hline, hip]
      rfl
    · rw [hline, List.getLast?_append, List.getLast?_cons, hlast]
      rfl
  have hblank : isSpace ' ' = true := by decide
  have htake : (ip.text.toList ++ ' ' :: name.text.toList).takeWhile (fun c => !isSpace c) =
      ip.text.toList := by
    rw [List.takeWhile_append_of_pos fun c hc => by simp [ip.not_isSpace c hc]]
    simp [hblank]
  have hdrop : (ip.text.toList ++ ' ' :: name.text.toList).dropWhile (fun c => !isSpace c) =
      ' ' :: name.text.toList := by
    rw [List.dropWhile_append_of_pos fun c hc => by simp [ip.not_isSpace c hc]]
    simp [hblank]
  have hname : (' ' :: name.text.toList).dropWhile isSpace = name.text.toList := by
    obtain ⟨d, ds, hds⟩ := List.exists_cons_of_ne_nil hnamene
    rw [List.dropWhile_cons, hblank, if_pos rfl, hds]
    exact dropWhile_isSpace (name.not_isSpace d (by simp [hds]))
  have hall : (name.text.toList.all fun c => !isSpace c) = true :=
    List.all_eq_true.mpr fun c hc => by simp [name.not_isSpace c hc]
  rw [parsePiholeHostsLine, hstrip, hline, htake, hdrop, hname, if_pos ⟨hipne, by simp, hnamene, hall⟩, String.ofList_toList,
    String.ofList_toList, if_pos ip.isIpv4]

/-- A Pi-hole. -/
def pihole : Backend where
  Rec := String
  recEq := inferInstance
  session := true
  read := parsePiholeHostsLine
  record name ip := formatPiholeHostsLine ip.text name.text
  delete r records := records.erase r
  read_record := parse_formatPiholeHostsLine
  delete_others := filter_ne_erase

/-! ## AdGuard Home -/

/-- A rewrite of AdGuard Home. -/
structure Rewrite where
  domain : String
  answer : String
  deriving DecidableEq, Repr

/-- `adguard_fqdn`. -/
def adguardFqdn (name domain : String) : String := s!"{name}.{domain}"

/-- The name of a rewrite under the target's domain. -/
def nameUnder (domain full : String) : Option String :=
  let suffix := ('.' :: domain.toList)
  if suffix <:+ full.toList then
    some (String.ofList (full.toList.take (full.toList.length - suffix.length)))
  else none

/-- A full domain is read back to its name. -/
theorem nameUnder_adguardFqdn (name domain : String) :
    nameUnder domain (adguardFqdn name domain) = some name := by
  have hfull : (adguardFqdn name domain).toList = name.toList ++ '.' :: domain.toList := by
    simp [adguardFqdn, toString]
  rw [nameUnder, hfull, if_pos (List.suffix_append _ _), List.length_append, Nat.add_sub_cancel, List.take_left,
    String.ofList_toList]

/-- An AdGuard Home, for targets of one domain. -/
def adguard (domain : String) : Backend where
  Rec := Rewrite
  recEq := inferInstance
  session := false
  read r := (nameUnder domain r.domain).map fun name => (name, r.answer)
  record name ip := { domain := adguardFqdn name.text domain, answer := ip.text }
  delete r records := records.erase r
  read_record name ip := by rw [nameUnder_adguardFqdn, Option.map_some]
  delete_others := filter_ne_erase

end JenKea.Dns
