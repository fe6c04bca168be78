import Mathlib.Order.Bounds.Basic
import Mathlib.Order.Lattice
import Prosody.Library.Bits

/-! # Addresses of hosts (`util/ip.lua`) -/

namespace Prosody

inductive Proto
  | IPv4
  | IPv6
  deriving DecidableEq

/-- An address, packed into as many bytes as its protocol takes. -/
structure Ip where
  proto : Proto
  packed : List UInt8
  length : packed.length = match proto with | .IPv4 => 4 | .IPv6 => 16

namespace Ip

instance : DecidableEq Ip := fun a b =>
  decidable_of_iff (a.proto = b.proto ∧ a.packed = b.packed) (by
    cases a
    cases b
    simp)

/-- An address of four bytes. -/
def v4 (a b c d : UInt8) : Ip := ⟨.IPv4, [a, b, c, d], rfl⟩

/-- An address of which the first bytes are given, and the others are zero. -/
def v6 (front : List UInt8) (h : front.length ≤ 16) : Ip where
  proto := .IPv6
  packed := front ++ List.replicate (16 - front.length) 0
  length := by
    change _ = 16
    rw [List.length_append, List.length_replicate]
    omega

def hex2bits (digit : ℕ) : List Bool := Bits.toBits 4 digit

def bits (ip : Ip) : List Bool :=
  ip.packed.flatMap fun b => hex2bits (b.toNat / 16) ++ hex2bits (b.toNat % 16)

/-- The address `::ffff:a.b.c.d`. Other addresses are not asked for theirs. -/
def toV4mapped (ip : Ip) : Ip :=
  match ip with
  | ⟨.IPv4, packed, h⟩ => ⟨.IPv6, List.replicate 10 0 ++ [255, 255] ++ packed, by simp [h]⟩
  | ⟨.IPv6, packed, h⟩ => ⟨.IPv6, packed, h⟩

def bitsFull (ip : Ip) : List Bool :=
  if ip.proto = .IPv4 then ip.toV4mapped.bits else ip.bits

def commonPrefixLength (ipA ipB : Ip) : ℕ :=
  ((List.range 128).find? fun i => decide (ipA.bitsFull[i]? ≠ ipB.bitsFull[i]?)).getD 128

/-- `match`, with the number of bits if there is one. -/
def matches' (ipA ipB : Ip) : Option ℕ → Bool
  | none => ipA.packed = ipB.packed
  | some bits =>
    if bits ≥ 128 ∨ ipB.proto = .IPv4 ∧ bits ≥ 32 then ipA.packed = ipB.packed
    else if bits < 1 then true
    else if ipA.proto ≠ ipB.proto then
      if ipA.proto = .IPv4 then ipA.toV4mapped.bits.take bits = ipB.bits.take bits
      else ipA.bits.take (bits + (128 - 32)) = ipB.toV4mapped.bits.take (bits + (128 - 32))
    else ipA.bits.take bits = ipB.bits.take bits

/-! ## Classes of addresses -/

def loopback : Ip := v6 [0, 0, 0, 0, 0, 0, 0, 0, 0, 0, 0, 0, 0, 0, 0, 1] (by decide)
def loopback4 : Ip := v4 127 0 0 0
def sixtofour : Ip := v6 [0x20, 0x02] (by decide)
def teredo : Ip := v6 [0x20, 0x01] (by decide)
def linklocal : Ip := v6 [0xfe, 0x80] (by decide)
def linklocal4 : Ip := v4 169 254 0 0
def uniquelocal : Ip := v6 [0xfc, 0x00] (by decide)
def sitelocal : Ip := v6 [0xfe, 0xc0] (by decide)
def sixbone : Ip := v6 [0x3f, 0xfe] (by decide)
def defaultunicast : Ip := v6 [] (by decide)
def multicast : Ip := v6 [0xff, 0x00] (by decide)
def ipv6mapped : Ip := v6 [0, 0, 0, 0, 0, 0, 0, 0, 0, 0, 0xff, 0xff] (by decide)

def v4scope (ip : Ip) : ℕ :=
  if ip.matches' loopback4 (some 8) then 0x2
  else if ip.matches' linklocal4 none then 0x2
  else 0xE

def v6scope (ip : Ip) : ℕ :=
  if ip.packed = loopback.packed then 0x2
  else if ip.matches' linklocal (some 10) then 0x2
  else if ip.matches' sitelocal (some 10) then 0x5
  else if ip.matches' multicast (some 10) then (ip.packed.getD 1 0).toNat % 0x10
  else 0xE

def v6label (ip : Ip) : ℕ :=
  if ip.packed = loopback.packed then 0
  else if ip.matches' sixtofour (some 16) then 2
  else if ip.matches' teredo (some 32) then 5
  else if ip.matches' uniquelocal (some 7) then 13
  else if ip.matches' sitelocal (some 10) then 11
  else if ip.matches' sixbone (some 16) then 12
  else if ip.matches' defaultunicast (some 96) then 3
  else if ip.matches' ipv6mapped (some 96) then 4
  else 1

def v6precedence (ip : Ip) : ℕ :=
  if ip.packed = loopback.packed then 50
  else if ip.matches' sixtofour (some 16) then 30
  else if ip.matches' teredo (some 32) then 5
  else if ip.matches' uniquelocal (some 7) then 3
  else if ip.matches' sitelocal (some 10) then 1
  else if ip.matches' sixbone (some 16) then 1
  else if ip.matches' defaultunicast (some 96) then 1
  else if ip.matches' ipv6mapped (some 96) then 35
  else 40

def label (ip : Ip) : ℕ := if ip.proto = .IPv4 then ip.toV4mapped.v6label else ip.v6label

def precedence (ip : Ip) : ℕ :=
  if ip.proto = .IPv4 then ip.toV4mapped.v6precedence else ip.v6precedence

def scope (ip : Ip) : ℕ := if ip.proto = .IPv4 then ip.v4scope else ip.v6scope

def rfc1918_8 : Ip := v4 10 0 0 0
def rfc1918_12 : Ip := v4 172 16 0 0
def rfc1918_16 : Ip := v4 192 168 0 0
def rfc6598 : Ip := v4 100 64 0 0

def isPrivate (ip : Ip) : Bool :=
  if ip.scope = 0xE ∧ ip.proto = .IPv4 then
    ip.matches' rfc1918_8 (some 8) || ip.matches' rfc1918_12 (some 12) ||
      ip.matches' rfc1918_16 none || ip.matches' rfc6598 (some 10)
  else ip.scope ≠ 0xE

end Ip

end Prosody
