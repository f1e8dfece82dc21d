import KaliGui.Lib.Run
import KaliGui.Lib.Loops
import KaliGui.Lorie.SharedLock
import KaliGui.Lorie.Connection
import KaliGui.Lorie.ExaAccess
import KaliGui.Touchpad.InputModel
import KaliGui.Touchpad.Handlers
import KaliGui.Touchpad.LeftButton
import KaliGui.Touchpad.Effects
import KaliGui.Touchpad.Timers
import KaliGui.Touchpad.Tail
import KaliGui.Touchpad.Cursor
import KaliGui.Lib.ByteStream
import KaliGui.Lorie.Event
import KaliGui.Lorie.ToActivity
import KaliGui.Lorie.ToServer
import KaliGui.Lib.Raster
import KaliGui.Lorie.GpuCopy
import KaliGui.Lorie.Present
import KaliGui.Lib.Links
import KaliGui.WorkQueue.Model
import KaliGui.Lib.Tokens
import KaliGui.WorkQueue.Invariant
import KaliGui.WorkQueue.Pushing
import KaliGui.WorkQueue.Serving
import KaliGui.WorkQueue.ExactlyOnce
import KaliGui.Lib.SpinLock
import KaliGui.WorkQueue.Reentrant
import KaliGui.WorkQueue.Bound
import KaliGui.WorkQueue.Order
import KaliGui.WorkQueue.Pass
import KaliGui.Lorie.Clipboard
import KaliGui.X11Client.Frame
import KaliGui.X11Client.RequestStream
import KaliGui.Lib.DataInput
import KaliGui.X11Client.Replies
import KaliGui.X11Client.Setup
import KaliGui.X11Client.FrameSizes
import KaliGui.X11Client.FrameLoop
import KaliGui.Lib.RingIndex
import KaliGui.Lorie.GpuCopyRing
import KaliGui.Lorie.GpuCopyAck
import KaliGui.Lib.Latches
import KaliGui.Keyboard.Keymap
import KaliGui.Keyboard.Lookup
import KaliGui.Keyboard.KeysymEvent
import KaliGui.Lorie.ClipboardAnswers
import KaliGui.Lorie.ClipboardCache
import KaliGui.Lorie.PresentClock
import KaliGui.Lorie.VblankQueue
import KaliGui.Lorie.RootSize
import KaliGui.Lorie.Surface
import KaliGui.Lorie.GpuCopyDamage
import KaliGui.Lorie.ShortReads
import KaliGui.Touchpad.Gesture
import KaliGui.Lib.Presses
import KaliGui.Lorie.Stylus
import KaliGui.Lorie.Touch
import KaliGui.Lorie.TouchWire
import KaliGui.Lorie.Buffer
import KaliGui.Lorie.BufferConvert
import KaliGui.Lorie.BufferHandover
import KaliGui.Lorie.PixmapBuffer
import KaliGui.Lorie.Flip
import KaliGui.Lorie.ScreenConfig
import KaliGui.Lib.Scan
import KaliGui.Lorie.CursorImage
import KaliGui.Lib.Rounding
import KaliGui.Touchpad.Drift
import KaliGui.Touchpad.Renderer
import KaliGui.Touchpad.Scroll
import KaliGui.Touchpad.Exclusion
import KaliGui.Lib.TriangleStrip
import KaliGui.Touchpad.Picture
import KaliGui.Lib.Clamp
import KaliGui.Lorie.Redraw
import KaliGui.Lorie.RedrawTexture
import KaliGui.Lorie.RedrawPan
import KaliGui.Lorie.RenderLoop
import KaliGui.Keyboard.KeyRelease
import KaliGui.Lib.Recency
import KaliGui.Keyboard.AddedKeysyms
import KaliGui.Keyboard.Search
import KaliGui.Lorie.ClipboardReplies
import KaliGui.Lorie.CheckUtf8
import KaliGui.Lorie.Utf8ToLatin1
import KaliGui.Lib.LeadCode
import KaliGui.Lib.Utf8
import KaliGui.Lorie.AcceptedUtf8
import KaliGui.Lorie.Latin1
import KaliGui.Lorie.Latin1RoundTrip
import KaliGui.Lorie.PanToCursor
import KaliGui.Lib.Simulation
import KaliGui.Lib.ManualEvent
import KaliGui.Lorie.FenceFutex
import KaliGui.Lorie.FencePthread
import KaliGui.Lorie.Fence
import KaliGui.Lib.Shelves
import KaliGui.Lorie.BufferLists
import KaliGui.Lorie.BufferRegistry
import KaliGui.Lib.DoubleBuffer
import KaliGui.X11Client.Upload
import KaliGui.Lorie.Handshake
import KaliGui.Lib.TreeWalk
import KaliGui.Lorie.ScreenResize
import KaliGui.X11Client.Listener
import KaliGui.X11Client.Launcher
import KaliGui.Lorie.PixmapAccess
import KaliGui.Lorie.PixmapLocks
