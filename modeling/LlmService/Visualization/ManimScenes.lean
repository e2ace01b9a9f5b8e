/-!
# Scenes of the animation templates

`_HEADER` and `_SCENES` of `visualization/manim_templates.py`: the code that is
written around the data of an animation.
-/

namespace LlmService

namespace ManimTemplates

/-- `_HEADER % encoded` -/
def header (encoded : List Char) : List Char :=
  "import base64, json\nfrom manim import *\n\nDATA = json.loads(base64.b64decode(\"".toList ++ encoded ++
    "\").decode(\"utf-8\"))\nconfig.background_color = \"#0f0f14\"\n".toList

def binarySearchScene : List String :=
  ["",
    "class GeneratedScene(Scene):",
    "    def construct(self):",
    "        arr, steps, target = DATA[\"array\"], DATA[\"steps\"], DATA[\"target\"]",
    "        n = len(arr)",
    "        self.add(Text(DATA[\"title\"], font_size=30).to_edge(UP))",
    "        w = min(0.9, 11.0 / n)",
    "        cells = VGroup(*[Square(side_length=w).set_stroke(WHITE, 2) for _ in range(n)]).arrange(RIGHT, buff=0.05)",
    "        labels = VGroup(*[Text(str(v), font_size=max(14, int(w * 28))).move_to(cells[i]) for i, v in enumerate(arr)])",
    "        idx = VGroup(*[Text(str(i), font_size=14, color=GRAY).next_to(cells[i], DOWN, buff=0.1) for i in range(n)])",
    "        goal = Text(\"target = \" + str(target), font_size=26).next_to(cells, UP, buff=0.9)",
    "        self.play(FadeIn(cells), FadeIn(labels), FadeIn(idx), FadeIn(goal))",
    "        for s in steps:",
    "            lo, hi, mid = s[\"low\"], s[\"high\"], s[\"mid\"]",
    "            anims = []",
    "            for i in range(n):",
    "                inside = lo <= i <= hi",
    "                color = YELLOW if i == mid else (BLUE_E if inside else BLACK)",
    "                anims.append(cells[i].animate.set_fill(color, opacity=0.65 if inside else 0.12))",
    "            note = Text(\"low=%d  high=%d  mid=%d : %d %s %d\" % (lo, hi, mid, arr[mid], s[\"cmp\"], target), font_size=24).to_edge(DOWN)",
    "            self.play(*anims, FadeIn(note), run_time=0.8)",
    "            self.wait(0.6)",
    "            self.play(FadeOut(note), run_time=0.3)",
    "        end = Text(DATA[\"result\"], font_size=30, color=GREEN if DATA[\"found\"] else RED).to_edge(DOWN)",
    "        self.play(FadeIn(end))",
    "        self.wait(1)",
    ""]

def sortingScene : List String :=
  ["",
    "class GeneratedScene(Scene):",
    "    def bars(self, arr, hl):",
    "        n = len(arr)",
    "        w = min(0.8, 10.0 / n)",
    "        group = VGroup()",
    "        for i, v in enumerate(arr):",
    "            r = Rectangle(width=w, height=0.18 * v + 0.2, fill_opacity=0.85, stroke_width=1)",
    "            r.set_fill(YELLOW if i in hl else BLUE_D)",
    "            group.add(r)",
    "        group.arrange(RIGHT, buff=0.12, aligned_edge=DOWN)",
    "        group.move_to(ORIGIN + DOWN * 0.3)",
    "        return group",
    "",
    "    def construct(self):",
    "        frames = DATA[\"frames\"]",
    "        self.add(Text(DATA[\"title\"], font_size=30).to_edge(UP))",
    "        current = self.bars(frames[0][\"arr\"], [])",
    "        note = Text(frames[0][\"note\"], font_size=24).to_edge(DOWN)",
    "        self.play(FadeIn(current), FadeIn(note))",
    "        for f in frames[1:]:",
    "            nxt = self.bars(f[\"arr\"], f[\"hl\"])",
    "            nn = Text(f[\"note\"], font_size=24).to_edge(DOWN)",
    "            self.play(Transform(current, nxt), Transform(note, nn), run_time=0.35)",
    "        self.wait(1)",
    ""]

def recursionStackScene : List String :=
  ["",
    "class GeneratedScene(Scene):",
    "    def construct(self):",
    "        self.add(Text(DATA[\"title\"], font_size=30).to_edge(UP))",
    "        base_y, h = -2.8, 0.55",
    "        stack = []",
    "        for ev in DATA[\"events\"]:",
    "            if ev[\"op\"] == \"push\":",
    "                box = Rectangle(width=3.6, height=h, fill_opacity=0.6, stroke_width=2).set_fill(BLUE_D)",
    "                label = Text(ev[\"text\"], font_size=22).move_to(box)",
    "                item = VGroup(box, label)",
    "                item.move_to([0, base_y + h * len(stack) + 0.0, 0])",
    "                item.shift(UP * 3)",
    "                self.play(item.animate.shift(DOWN * 3), run_time=0.4)",
    "                stack.append(item)",
    "            else:",
    "                item = stack.pop()",
    "                done = Text(ev[\"text\"], font_size=22).move_to(item)",
    "                self.play(Transform(item[1], done), item[0].animate.set_fill(GREEN_D), run_time=0.3)",
    "                self.play(FadeOut(item), run_time=0.25)",
    "        self.play(FadeIn(Text(\"result = \" + str(DATA[\"result\"]), font_size=30, color=GREEN).to_edge(DOWN)))",
    "        self.wait(1)",
    ""]

def graphTraversalScene : List String :=
  ["",
    "class GeneratedScene(Scene):",
    "    def construct(self):",
    "        nodes, edges, order = DATA[\"nodes\"], DATA[\"edges\"], DATA[\"order\"]",
    "        self.add(Text(DATA[\"title\"], font_size=30).to_edge(UP))",
    "        g = Graph(list(range(len(nodes))), [tuple(e) for e in edges], layout=\"circular\",",
    "                  labels=\x7bi: Text(n, font_size=24) for i, n in enumerate(nodes)\x7d,",
    "                  vertex_config=\x7b\"radius\": 0.32\x7d, layout_scale=2.4)",
    "        self.play(Create(g))",
    "        seq = Text(\"order:\", font_size=24).to_edge(DOWN)",
    "        self.add(seq)",
    "        visited = []",
    "        for v in order:",
    "            visited.append(nodes[v])",
    "            nxt = Text(\"order: \" + \" -> \".join(visited), font_size=24).to_edge(DOWN)",
    "            self.play(g[v].animate.set_color(YELLOW), Transform(seq, nxt), run_time=0.7)",
    "            self.play(g[v].animate.set_color(GREEN), run_time=0.2)",
    "        self.wait(1)",
    ""]

def messageFlowScene : List String :=
  ["",
    "class GeneratedScene(Scene):",
    "    def construct(self):",
    "        actors, msgs = DATA[\"actors\"], DATA[\"messages\"]",
    "        self.add(Text(DATA[\"title\"], font_size=30).to_edge(UP))",
    "        k = len(actors)",
    "        xs = [(-5.0 + 10.0 * i / (k - 1)) for i in range(k)]",
    "        top, bottom = 2.4, -3.2",
    "        heads, lines = VGroup(), VGroup()",
    "        for x, name in zip(xs, actors):",
    "            box = Rectangle(width=1.9, height=0.55, stroke_width=2).move_to([x, top, 0])",
    "            heads.add(VGroup(box, Text(name, font_size=20).move_to(box)))",
    "            lines.add(DashedLine([x, top - 0.3, 0], [x, bottom, 0], stroke_width=2, color=GRAY))",
    "        self.play(FadeIn(heads), Create(lines))",
    "        step = (top - 0.5 - bottom) / (len(msgs) + 1)",
    "        for i, m in enumerate(msgs):",
    "            y = top - 0.4 - step * (i + 1)",
    "            a, b = xs[m[\"from\"]], xs[m[\"to\"]]",
    "            arrow = Arrow([a, y, 0], [b, y, 0], buff=0, color=YELLOW, stroke_width=4, max_tip_length_to_length_ratio=0.15)",
    "            text = Text(m[\"label\"], font_size=20).next_to(arrow, UP, buff=0.05)",
    "            self.play(GrowArrow(arrow), FadeIn(text), run_time=0.6)",
    "            self.wait(0.3)",
    "        self.wait(1)",
    ""]

def stateMachineScene : List String :=
  ["",
    "class GeneratedScene(Scene):",
    "    def construct(self):",
    "        states, trans, path = DATA[\"states\"], DATA[\"transitions\"], DATA[\"path\"]",
    "        self.add(Text(DATA[\"title\"], font_size=30).to_edge(UP))",
    "        n = len(states)",
    "        pos = [2.3 * np.array([np.cos(TAU * i / n + PI / 2), np.sin(TAU * i / n + PI / 2), 0]) + DOWN * 0.3 for i in range(n)]",
    "        nodes = []",
    "        for p, name in zip(pos, states):",
    "            c = Circle(radius=0.55, stroke_width=3).move_to(p)",
    "            nodes.append(VGroup(c, Text(name, font_size=18).move_to(c)))",
    "        arrows = VGroup()",
    "        for t in trans:",
    "            a, b = pos[t[\"from\"]], pos[t[\"to\"]]",
    "            d = (b - a) / np.linalg.norm(b - a)",
    "            arr = Arrow(a + d * 0.6, b - d * 0.6, buff=0, stroke_width=3, color=GRAY, max_tip_length_to_length_ratio=0.2)",
    "            lab = Text(t[\"label\"], font_size=16).move_to(arr.get_center() + np.array([-d[1], d[0], 0]) * 0.28)",
    "            arrows.add(VGroup(arr, lab))",
    "        self.play(*[FadeIn(nd) for nd in nodes], FadeIn(arrows))",
    "        token = Dot(color=YELLOW, radius=0.12)",
    "        if path:",
    "            token.move_to(pos[path[0]])",
    "            self.play(FadeIn(token), nodes[path[0]][0].animate.set_fill(YELLOW, opacity=0.35))",
    "            for prev, cur in zip(path, path[1:]):",
    "                self.play(nodes[prev][0].animate.set_fill(BLACK, opacity=0), token.animate.move_to(pos[cur]),",
    "                          nodes[cur][0].animate.set_fill(YELLOW, opacity=0.35), run_time=0.8)",
    "        self.wait(1)",
    ""]

def textStepsScene : List String :=
  ["",
    "class GeneratedScene(Scene):",
    "    def construct(self):",
    "        self.add(Text(DATA[\"title\"], font_size=30).to_edge(UP))",
    "        current = Text(DATA[\"steps\"][0], font_size=36)",
    "        self.play(Write(current))",
    "        self.wait(0.8)",
    "        for s in DATA[\"steps\"][1:]:",
    "            nxt = Text(s, font_size=36)",
    "            self.play(Transform(current, nxt), run_time=0.9)",
    "            self.wait(0.9)",
    "        self.wait(0.5)",
    ""]

/-- `_SCENES`, by lines -/
def scenes : List (String × List String) :=
  [("binary_search", binarySearchScene),
    ("sorting", sortingScene),
    ("recursion_stack", recursionStackScene),
    ("graph_traversal", graphTraversalScene),
    ("message_flow", messageFlowScene),
    ("state_machine", stateMachineScene),
    ("text_steps", textStepsScene)]

end ManimTemplates

end LlmService
