import ScriptTree.Text.Basic

/-!
Sample programs of any length. They go through the forms of the language, so that a pass over them
reaches most of the grammar. A module has two parameters of one name in each of its blocks, which
modules do not allow.
-/

namespace ScriptTree.Sample

/-- The statements at the head of a module: imports and exports of every form. -/
def moduleHead : List String :=
  ["import defaultA from './a.js';",
   "import * as nsB from './b.js';",
   "import \x7bnamed as aliased, other\x7d from './c.js';",
   "import defaultD, \x7bpartE\x7d from './d.js';",
   "import defaultF, * as nsF from './f.js';",
   "import './side.js';",
   "export \x7baliased as reexported\x7d;",
   "export * from './g.js';",
   "export \x7bpartE\x7d from './d.js';",
   "export default function exportedDefault() \x7b return 0; \x7d",
   "export const EXC = 1;",
   "export function EXF(a, b) \x7b return a + b; \x7d",
   "export class EXK \x7b\x7d",
   "export let EXL = 2, EXM = 3;",
   "export var EXV = 4;",
   "export async function EXA() \x7b return 0; \x7d",
   "import \x7bif as kwcond, for as kwfor\x7d from './k.js';"]

/-- The statements at the head of a script: forms that modules do not allow. -/
def scriptHead : List String :=
  ["",
   "with (Math) \x7b var wv = max(1, 2); \x7d",
   "var leg8 = 0777;",
   "var htmlish = 1;",
   "--> closing html-ish comment",
   "var htmlish2 = 2; <!-- html-ish open comment",
   "var big = '\\u\x7b1F600\x7d';",
   "var legstr = 'oct\\123al\\b\\f\\v\\r\\",
   "continued';",
   "function strictFn() \x7b 'use strict'; return this; \x7d",
   "function eval(arguments) \x7b return arguments; \x7d",
   "var let = 1; let;",
   "function yi() \x7b var yield = 1; return yield + let; \x7d",
   "for (let in \x7ba:1\x7d) ;",
   "for (let lds = 0; lds < 1; lds++) ;",
   "lab1: function labFn() \x7b\x7d",
   "lab2: function* labGen() \x7b\x7d",
   "function dotest() \x7b var o = \x7ba:1\x7d; delete o; ++o.a; \x7d",
   "089;",
   "var cxi = a\\u\x7b62\x7dc0 + \\u\x7b61\x7db0;"]

/-- Statements of every form that modules and scripts share. The number of the block stands for `@`. -/
def block : List String :=
  ["",
   "// line comment @",
   "/* block",
   "   comment @ */",
   "var alpha@ = 0x1F, _b@ = 0o17, c@ = 0b1010, d@ = 1.5e3, e@ = .25;",
   "let [p@, q@ = 2, ...rest@] = [1, , 3, 4];",
   "const \x7b kA@: ka@, kb@ = 7, ...ro@ \x7d = \x7b kA@: 1, kb@: 2, z: 3 \x7d;",
   "var s@ = \"he\\\"l\\tlo\\n\\x41é\\0end\";",
   "var r@ = /ab[\\\\d]+c/gimuy;",
   "var t@ = `head $\x7b ka@ + 1 \x7d mid $\x7b `inner$\x7b2\x7d` \x7d tail`;",
   ";",
   "function fdecl@(x, [y, z] = [1, 2], \x7bw = 3\x7d = \x7b\x7d, ...rest) \x7b",
   "  label@: for (var j = 0; j < 3; j++) \x7b",
   "    if (j === 1) continue label@;",
   "    if (j === 2) break label@;",
   "  \x7d",
   "  for (const k in \x7ba: 1\x7d) \x7b void k; \x7d",
   "  for (const v of [1, 2, 3]) \x7b v; \x7d",
   "  do \x7b j--; \x7d while (j > 0 && j < 10 || false);",
   "  while (false) \x7b break; \x7d",
   "  switch (x) \x7b",
   "    case 1:",
   "    case 2: x++; break;",
   "    default: x--;",
   "  \x7d",
   "  try \x7b throw new Error('e'); \x7d catch (\x7bmessage\x7d) \x7b message; \x7d finally \x7b 0; \x7d",
   "  debugger;",
   "  return x ? y : (z, w);",
   "\x7d",
   "async function af@(a) \x7b",
   "  const dyn = import('mod');",
   "  const nt = () => new.target;",
   "  await a;",
   "  return await (a ** 2) + (typeof a) + (void 0) + (delete a.p);",
   "\x7d",
   "function* gen@() \x7b yield 1; yield* [2, 3]; const x = yield; return x; \x7d",
   "const arrow@ = async (m, n) => \x7b return m + n; \x7d;",
   "const arrow2_@ = x => x * 2;",
   "const seq@ = (1, 2, 3);",
   "const obj@ = \x7b",
   "  a: 1,",
   "  'b': 2,",
   "  [ka@]: 3,",
   "  short@,",
   "  method(x) \x7b return x; \x7d,",
   "  get g() \x7b return 1; \x7d,",
   "  set g(v) \x7b this._g = v; \x7d,",
   "  *gm() \x7b yield 1; \x7d,",
   "  async am() \x7b return 0; \x7d,",
   "\x7d;",
   "var short@ = 0;",
   "const arr@ = [1, , ...[2, 3], obj@.a, obj@['b'], new fdecl@(1), new fdecl@];",
   "class Base@ \x7b",
   "  constructor(n) \x7b this.n = n; \x7d",
   "  static make() \x7b return new Base@(0); \x7d",
   "  get val() \x7b return this.n; \x7d",
   "  set val(v) \x7b this.n = v; \x7d",
   "  *[Symbol.iterator]() \x7b yield this.n; \x7d",
   "  async go() \x7b return this.n; \x7d",
   "\x7d",
   "class Derived@ extends Base@ \x7b",
   "  constructor() \x7b super(1); \x7d",
   "  method() \x7b return super.val + 1; \x7d",
   "\x7d",
   "const cexpr@ = class \x7b foo() \x7b return 42; \x7d \x7d;",
   "let upd@ = 0; upd@++; ++upd@; upd@--; --upd@;",
   "upd@ += 1; upd@ -= 1; upd@ *= 2; upd@ /= 2; upd@ %= 2;",
   "upd@ <<= 1; upd@ >>= 1; upd@ >>>= 1; upd@ &= 1; upd@ |= 1; upd@ ^= 1;",
   "const bin@ = (1 + 2 - 3) * 4 / 5 % 6 ** 2 << 1 >> 1 >>> 1 & 1 | 1 ^ 1;",
   "const cmp@ = 1 < 2 && 3 > 2 || 1 <= 1 && 2 >= 2 && 1 == 1 && 1 === 1 && 1 != 2 && 1 !== 2;",
   "const rel@ = ('a' in obj@) && (obj@ instanceof Object) && !false && ~0;",
   "const tagged@ = String.raw`hi$\x7b1\x7d`;",
   "if (bin@) fdecl@(1); else fdecl@(2);",
   "const arEmpty@ = () => 0;",
   "const arRest@ = (...r) => r;",
   "const arMix@ = (a, b, ...r) => r;",
   "const arTrail@ = (a, b,) => a;",
   "const arObj@ = (\x7ba, b = 1, ...o\x7d) => a;",
   "const arArr@ = ([a = 1, , b], \x7bc\x7d, ...r) => a + c;",
   "const arAsy@ = async x => x;",
   "const arAsy2_@ = async (p, ...q) => p;",
   "fdecl@(...arr@, 1);",
   "alpha@, d@, e@;",
   "const cext@ = class extends Base@ \x7b m() \x7b return new super.make(); \x7d \x7d;",
   "const nmFn@ = function named@(a) \x7b return a; \x7d;",
   "const anAf@ = async function() \x7b return 0; \x7d;",
   "const anGf@ = function*() \x7b yield; \x7d;",
   "const oi@ = \x7ba: 1\x7d;",
   "let forin@;",
   "for (forin@ in oi@) ;",
   "for (forin@ of [1, 2]) ;",
   "for (var vi@ in oi@) ;",
   "for (var vo@ of [1, 2]) ;",
   "for (alpha@ = 0, forin@ = 0; alpha@ < 1; alpha@++) ;",
   "const [, , hole@] = [1, 2, 3];",
   "const \x7b 'lit': lp@, [ka@]: cp@ \x7d = \x7blit: 1\x7d;",
   "const nlhs@ = new Base@.make;",
   "const nlhs2_@ = new arr@[0];",
   "const rx2_@ = /[\\u\x7b1F600\x7dA\\u\x7b10FFFF\x7d😀]/u;",
   "const tplEsc@ = `$\\n\\r\\t\\b\\f\\v\\0A\\u\x7b42\x7d\\uZZZZ\\x43\\q\\",
   "next",
   "line`;",
   "var \\u\x7b61\x7db@ = 0;",
   "var a\\u\x7b62\x7dc@ = 0;",
   "function dpar@(a, a) \x7b return a; \x7d",
   "class Sup@ extends Base@ \x7b static s() \x7b return super.make(); \x7d \x7d",
   "async function afc@(a) \x7b return await a(...[1, 2]); \x7d"]

def markupHead : List String :=
  ["import React from 'react';"]

/-- A component with markup and a use of it. `@` stands for its number. -/
def element : List String :=
  ["",
   "function Comp@(props) \x7b",
   "  return (",
   "    <div className=\"c@\" data-id=\x7bprops.id\x7d \x7b...props\x7d>",
   "      <ns:span ns:attr=\"v\" />",
   "      <Lib.Widget key=\x7b1\x7d>",
   "        text &amp; more &#65; &#x42; end",
   "        \x7b props.children \x7d",
   "        \x7b /* empty */ \x7d",
   "      </Lib.Widget>",
   "      <input disabled value='x' />",
   "    </div>",
   "  );",
   "\x7d",
   "const el@ = <Comp@ id=\x7b1\x7d><b>hi</b></Comp@>;"]

def markupTail : List String :=
  ["class P \x7b prop = 1; static sprop = 2; \x7d"]

/-- The text with a number in place of each `@`. -/
def numbered (n : Nat) (t : Text) : Text := t.flatMap fun c => if c == 0x40 then Text.ofNat n else [c]

def ofLines (lines : List String) : Text := lines.flatMap fun line => Text.ofString line ++ [0xA]

/-- The numbered texts of some lines, one after the other. -/
def repeated (n : Nat) (lines : List String) : Text :=
  (List.range n).flatMap fun i => numbered i (ofLines lines)

def module (n : Nat) : Text := ofLines moduleHead ++ repeated n block

def script (n : Nat) : Text := ofLines scriptHead ++ repeated n block

def markup (n : Nat) : Text := ofLines markupHead ++ repeated n element ++ ofLines markupTail

/-- Lines with a literal each: numbers, strings with escapes, and a template. -/
def literalForms : List String :=
  ["var a@ = 0x1F;",
   "var b@ = '\\x41\\u0042\\u\x7b43\x7d\\n\\t@';",
   "var c@ = \"\\r\\b\\f\\v\\0@\";",
   "var d@ = `@`;",
   "var e@ = -1.5e3;"]

/-- Exports of the forms that have completions of their own. The last exports two names. -/
def exportForms : List String :=
  ["export function f@(a, b = 1) \x7b\x7d",
   "export const g@ = (x, ...y) => x;",
   "export const h@ = function ([p, q]) \x7b\x7d;",
   "export const c@ = @;",
   "const k@ = (\x7ba\x7d) => a; export \x7bk@ as s@\x7d;",
   "export let u@ = 1, v@ = 2;"]

def inTurn (n : Nat) (forms : List String) : Text :=
  (List.range n).flatMap fun i => numbered i (ofLines [forms.getD (i % forms.length) ""])

def literals (n : Nat) : Text := inTurn n literalForms

def library (n : Nat) : Text := inTurn n exportForms

end ScriptTree.Sample
